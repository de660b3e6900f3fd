import Tim2Tox.DartText
import Tim2Tox.Utf8

set_option autoImplicit false

/-!
# Conversation ids

The native library puts `c2c_` or `group_` before an id and takes it away again, on bytes; the Dart
side does so on code units, trims, and cuts to the length of a key. A conversation's history file
is named by its normalised id.
-/
namespace Tim2Tox.ConversationIds
open DartText

/-- The marks of a conversation id, as characters. -/
def c2c : List Char := ['c', '2', 'c', '_']
def group : List Char := ['g', 'r', 'o', 'u', 'p', '_']

/-! ## The native library -/

abbrev Bytes := List UInt8

def c2cBytes : Bytes := Utf8.encode c2c
def groupBytes : Bytes := Utf8.encode group

/-- `id.length() >= n && id.substr(0, n) == mark` -/
def hasMark (mark id : Bytes) : Bool := mark.length ≤ id.length && id.take mark.length == mark

def buildFullConversationID (baseConvId : Option Bytes) (convType : ℕ) : Bytes :=
  match baseConvId with
  | none => []
  | some baseId =>
    if hasMark c2cBytes baseId then baseId
    else if hasMark groupBytes baseId then baseId
    else if convType = 1 then c2cBytes ++ baseId
    else if convType = 2 then groupBytes ++ baseId
    else baseId

def extractBaseConversationID (convId : Option Bytes) : Bytes :=
  match convId with
  | none => []
  | some id =>
    if hasMark c2cBytes id then id.drop 4
    else if hasMark groupBytes id then id.drop 6
    else id

/-! ## The Dart side -/

def c2cUnits : Units := Utf16.encode c2c
def groupUnits : Units := Utf16.encode group

/-- 64 is the length of a Tox public key. -/
def normalize (id : Units) : Units :=
  if id = [] then id
  else
    let trimmed := trim id
    let baseId := if c2cUnits.isPrefixOf trimmed then trim (trimmed.drop 4)
      else if groupUnits.isPrefixOf trimmed then trim (trimmed.drop 6)
      else trimmed
    if baseId.length > 64 then baseId.take 64 else baseId

/-- `<>:"/\|?*` -/
def reserved : List ℕ := [60, 62, 58, 34, 47, 92, 124, 63, 42]

def sanitizeForFilename (id : Units) : Units :=
  (normalize id).map fun u => if u ∈ reserved then 95 else u

def buildFullId (baseId : Units) (isGroup : Bool) : Units :=
  if isGroup then groupUnits ++ normalize baseId else c2cUnits ++ normalize baseId

/-- `MakeGroupId`, which nothing calls. -/
def makeGroupId (instanceId : ℤ) (seq : ℕ) : Bytes :=
  Utf8.encode (group ++ (toString instanceId).toList ++ '_' :: (toString seq).toList)

/-- The name of `_getHistoryFile`. -/
def historyFileName (id : Units) : Units := sanitizeForFilename (normalize id) ++ ofString ".json"

/-! ## Native ids -/

theorem hasMark_iff {mark id : Bytes} : hasMark mark id = true ↔ mark <+: id := by
  rw [hasMark, Bool.and_eq_true, decide_eq_true_eq, beq_iff_eq]
  constructor
  · intro h
    rw [← h.2]
    exact List.take_prefix _ _
  · intro h
    obtain ⟨rest, rfl⟩ := h
    rw [List.length_append, List.take_left]
    exact ⟨Nat.le_add_right _ _, rfl⟩

theorem hasMark_append (mark rest : Bytes) : hasMark mark (mark ++ rest) = true :=
  hasMark_iff.mpr (List.prefix_append mark rest)

def Marked (id : Bytes) : Prop := c2cBytes <+: id ∨ groupBytes <+: id

instance (id : Bytes) : Decidable (Marked id) := inferInstanceAs (Decidable (_ ∨ _))

theorem build_marked {id : Bytes} (h : Marked id) (convType : ℕ) :
    buildFullConversationID (some id) convType = id := by
  rw [buildFullConversationID]
  rcases h with h | h
  · rw [if_pos (hasMark_iff.mpr h)]
  · rw [if_pos (hasMark_iff.mpr h), ite_self]

theorem build_plain {id : Bytes} (h : ¬ Marked id) (convType : ℕ) :
    buildFullConversationID (some id) convType =
      if convType = 1 then c2cBytes ++ id else if convType = 2 then groupBytes ++ id else id := by
  obtain ⟨hc2c, hgroup⟩ := not_or.mp h
  rw [buildFullConversationID, if_neg (mt hasMark_iff.mp hc2c), if_neg (mt hasMark_iff.mp hgroup)]

theorem extract_c2c (id : Bytes) : extractBaseConversationID (some (c2cBytes ++ id)) = id := by
  rw [extractBaseConversationID, if_pos (hasMark_append _ _)]
  rfl

theorem extract_group (id : Bytes) : extractBaseConversationID (some (groupBytes ++ id)) = id := by
  have hc2c : hasMark c2cBytes (groupBytes ++ id) = false := rfl
  rw [extractBaseConversationID, hc2c, if_pos (hasMark_append _ _)]
  rfl

theorem extract_plain {id : Bytes} (h : ¬ Marked id) :
    extractBaseConversationID (some id) = id := by
  obtain ⟨hc2c, hgroup⟩ := not_or.mp h
  rw [extractBaseConversationID, if_neg (mt hasMark_iff.mp hc2c), if_neg (mt hasMark_iff.mp hgroup)]

/-- A mark that is there is taken away. -/
theorem extract_marked {id : Bytes} (h : Marked id) : extractBaseConversationID (some id) ≠ id := by
  intro heq
  rcases h with ⟨rest, rfl⟩ | ⟨rest, rfl⟩
  · rw [extract_c2c] at heq
    have hlength := congrArg List.length heq
    rw [List.length_append] at hlength
    change rest.length = 4 + rest.length at hlength
    omega
  · rw [extract_group] at heq
    have hlength := congrArg List.length heq
    rw [List.length_append] at hlength
    change rest.length = 6 + rest.length at hlength
    omega

theorem extract_build_iff (id : Bytes) (convType : ℕ) :
    extractBaseConversationID (some (buildFullConversationID (some id) convType)) = id ↔
      ¬ Marked id := by
  by_cases h : Marked id
  · rw [build_marked h]
    exact iff_of_false (extract_marked h) (not_not_intro h)
  · rw [build_plain h]
    apply iff_of_true _ h
    split_ifs
    · exact extract_c2c id
    · exact extract_group id
    · exact extract_plain h

/-! ## Normalised ids -/

/-- Trimmed, without a mark, and no longer than a key. -/
structure Canonical (id : Units) : Prop where
  trimmed : trim id = id
  c2c : ¬ c2cUnits <+: id
  group : ¬ groupUnits <+: id
  short : id.length ≤ 64

theorem trim_sublist (s : Units) : (trim s).Sublist s :=
  (List.rdropWhile_prefix _ _).sublist.trans (List.dropWhile_sublist _)

theorem trim_eq_self_iff {s : Units} : trim s = s ↔
    (∀ h : 0 < s.length, isWhitespace s[0] = false) ∧
      ∀ h : s ≠ [], isWhitespace (s.getLast h) = false := by
  have hfront : s.dropWhile isWhitespace = s ↔
      ∀ h : 0 < s.length, isWhitespace s[0] = false := by
    rw [List.dropWhile_eq_self_iff]
    apply forall_congr'
    intro h
    rw [Bool.not_eq_true]
  have hback : s.rdropWhile isWhitespace = s ↔
      ∀ h : s ≠ [], isWhitespace (s.getLast h) = false := by
    rw [List.rdropWhile_eq_self_iff]
    apply forall_congr'
    intro h
    rw [Bool.not_eq_true]
  rw [← hfront, ← hback, trim]
  constructor
  · intro h
    have hle := (List.rdropWhile_prefix isWhitespace (s.dropWhile isWhitespace)).length_le
    rw [h] at hle
    have hdrop := (List.dropWhile_sublist isWhitespace).eq_of_length_le hle
    rw [hdrop] at h
    exact ⟨hdrop, h⟩
  · intro h
    rw [h.1, h.2]

/-- A mark in front of a trimmed id leaves it trimmed. -/
theorem trim_append {mark id : Units} (hmark : trim mark = mark) (hne : mark ≠ [])
    (hid : trim id = id) : trim (mark ++ id) = mark ++ id := by
  rw [trim_eq_self_iff] at *
  constructor
  · intro h
    have hpos := List.length_pos_iff.mpr hne
    rw [List.getElem_append_left hpos]
    exact hmark.1 hpos
  · intro h
    by_cases hempty : id = []
    · simp only [hempty, List.append_nil]
      exact hmark.2 hne
    · rw [List.getLast_append_right hempty]
      exact hid.2 hempty

theorem normalize_canonical {id : Units} (h : Canonical id) : normalize id = id := by
  rw [normalize]
  split_ifs with hempty
  · rfl
  · dsimp only
    rw [h.trimmed, if_neg (mt List.isPrefixOf_iff_prefix.mp h.c2c),
      if_neg (mt List.isPrefixOf_iff_prefix.mp h.group), if_neg (Nat.not_lt.mpr h.short)]

theorem normalize_c2c {id : Units} (h : Canonical id) : normalize (c2cUnits ++ id) = id := by
  have htrim : trim (c2cUnits ++ id) = c2cUnits ++ id :=
    trim_append (by decide) (by decide) h.trimmed
  have hmark : c2cUnits.isPrefixOf (c2cUnits ++ id) = true :=
    List.isPrefixOf_iff_prefix.mpr (List.prefix_append _ _)
  have hdrop : (c2cUnits ++ id).drop 4 = id := rfl
  rw [normalize, if_neg (List.append_ne_nil_of_left_ne_nil (by decide) _)]
  dsimp only
  rw [htrim, if_pos hmark, hdrop, h.trimmed, if_neg (Nat.not_lt.mpr h.short)]

theorem normalize_group {id : Units} (h : Canonical id) : normalize (groupUnits ++ id) = id := by
  have htrim : trim (groupUnits ++ id) = groupUnits ++ id :=
    trim_append (by decide) (by decide) h.trimmed
  have hother : c2cUnits.isPrefixOf (groupUnits ++ id) = false := rfl
  have hmark : groupUnits.isPrefixOf (groupUnits ++ id) = true :=
    List.isPrefixOf_iff_prefix.mpr (List.prefix_append _ _)
  have hdrop : (groupUnits ++ id).drop 6 = id := rfl
  rw [normalize, if_neg (List.append_ne_nil_of_left_ne_nil (by decide) _)]
  dsimp only
  rw [htrim, hother, if_neg Bool.false_ne_true, if_pos hmark, hdrop, h.trimmed,
    if_neg (Nat.not_lt.mpr h.short)]

theorem cut_length (id : Units) : (if id.length > 64 then id.take 64 else id).length ≤ id.length := by
  split_ifs
  · exact List.length_take_le' _ _
  · exact Nat.le_refl _

theorem trim_drop_length {mark id : Units} {n : ℕ} (hn : mark.length = n) (h : mark <+: trim id) :
    n + (trim ((trim id).drop n)).length ≤ id.length := by
  have hinner := (trim_sublist ((trim id).drop n)).length_le
  have houter := (trim_sublist id).length_le
  have hmark := h.length_le
  rw [List.length_drop] at hinner
  omega

/-- Normalising leaves an id alone exactly when there is nothing to do. -/
theorem normalize_eq_self_iff {id : Units} : normalize id = id ↔ Canonical id := by
  constructor
  · intro h
    by_cases hempty : id = []
    · rw [hempty]
      exact ⟨by decide, by decide, by decide, Nat.zero_le _⟩
    · rw [normalize, if_neg hempty] at h
      dsimp only at h
      have hlength := congrArg List.length h
      by_cases hc2c : c2cUnits <+: trim id
      · rw [if_pos (List.isPrefixOf_iff_prefix.mpr hc2c)] at hlength
        have hshort := trim_drop_length (n := 4) rfl hc2c
        have hle := cut_length (trim ((trim id).drop 4))
        omega
      · rw [if_neg (mt List.isPrefixOf_iff_prefix.mp hc2c)] at h hlength
        by_cases hgroup : groupUnits <+: trim id
        · rw [if_pos (List.isPrefixOf_iff_prefix.mpr hgroup)] at hlength
          have hshort := trim_drop_length (n := 6) rfl hgroup
          have hle := cut_length (trim ((trim id).drop 6))
          omega
        · rw [if_neg (mt List.isPrefixOf_iff_prefix.mp hgroup)] at h hlength
          have hle := cut_length (trim id)
          have htrim : trim id = id := by
            apply (trim_sublist id).eq_of_length_le
            omega
          rw [htrim] at hc2c hgroup h
          refine ⟨htrim, hc2c, hgroup, ?_⟩
          by_contra hlong
          rw [if_pos (Nat.not_le.mp hlong)] at h
          have htake := congrArg List.length h
          rw [List.length_take] at htake
          omega
  · exact normalize_canonical

/-! ## File names -/

def Plain (id : Units) : Prop := ∀ u ∈ id, u ∉ reserved

theorem sanitize_plain {id : Units} (h : Plain (normalize id)) :
    sanitizeForFilename id = normalize id := by
  rw [sanitizeForFilename]
  conv_rhs => rw [← List.map_id (normalize id)]
  apply List.map_congr_left
  intro u hu
  exact if_neg (h u hu)

theorem historyFileName_eq {id : Units} (hcanonical : Canonical (normalize id))
    (hplain : Plain (normalize id)) : historyFileName id = normalize id ++ ofString ".json" := by
  have htwice := normalize_canonical hcanonical
  have hplain' : Plain (normalize (normalize id)) := by
    rw [htwice]
    exact hplain
  rw [historyFileName, sanitize_plain hplain', htwice]

/-- The units of friend keys and of the group ids that are made here. -/
def Wordlike (u : ℕ) : Prop := (48 ≤ u ∧ u ≤ 57) ∨ (65 ≤ u ∧ u ≤ 90) ∨ (97 ≤ u ∧ u ≤ 122) ∨ u = 95

theorem Wordlike.notWhitespace {u : ℕ} (h : Wordlike u) : isWhitespace u = false := by
  rw [← Bool.not_eq_true]
  intro hspace
  simp only [isWhitespace, Bool.or_eq_true, Bool.and_eq_true, decide_eq_true_eq, List.mem_cons,
    List.not_mem_nil, or_false] at hspace
  rcases h with h | h | h | h <;> omega

theorem Wordlike.notReserved {u : ℕ} (h : Wordlike u) : u ∉ reserved := by
  rw [reserved]
  simp only [List.mem_cons, List.not_mem_nil, or_false]
  rcases h with h | h | h | h <;> omega

theorem canonical_of_wordlike {id : Units} (hword : ∀ u ∈ id, Wordlike u) (hshort : id.length ≤ 64)
    (hc2c : ¬ c2cUnits <+: id) (hgroup : ¬ groupUnits <+: id) : Canonical id ∧ Plain id :=
  ⟨⟨trim_eq_self fun u hu => (hword u hu).notWhitespace, hc2c, hgroup, hshort⟩,
    fun u hu => (hword u hu).notReserved⟩

def HexDigit (u : ℕ) : Prop := (48 ≤ u ∧ u ≤ 57) ∨ (65 ≤ u ∧ u ≤ 70) ∨ (97 ≤ u ∧ u ≤ 102)

theorem friendKey_canonical {key : Units} (hlength : key.length = 64)
    (hhex : ∀ u ∈ key, HexDigit u) : Canonical key ∧ Plain key := by
  have hunder : 95 ∉ key := by
    intro hmem
    rcases hhex 95 hmem with h | h | h <;> omega
  apply canonical_of_wordlike _ hlength.le
  · intro hstart
    exact hunder (hstart.subset (by decide))
  · intro hstart
    exact hunder (hstart.subset (by decide))
  · intro u hu
    rcases hhex u hu with h | h | h
    · exact Or.inl h
    · exact Or.inr (Or.inl (by omega))
    · exact Or.inr (Or.inr (Or.inl (by omega)))

/-- The group ids that are made here: `tox_` and a number, `tox_inv_` or `tox_conf_` and two. -/
theorem groupId_canonical {rest : Units} (hshort : rest.length ≤ 60)
    (hword : ∀ u ∈ rest, Wordlike u) :
    Canonical (ofString "tox_" ++ rest) ∧ Plain (ofString "tox_" ++ rest) := by
  have htox : ofString "tox_" = [116, 111, 120, 95] := by decide
  rw [htox]
  apply canonical_of_wordlike
  · intro u hu
    rcases List.mem_append.mp hu with htag | hrest
    · have hall : [116, 111, 120, 95].all (fun u => 97 ≤ u ∧ u ≤ 122 ∨ u = 95) = true := by
        decide
      exact Or.inr (Or.inr (of_decide_eq_true (List.all_eq_true.mp hall u htag)))
    · exact hword u hrest
  · rw [List.length_append]
    change 4 + rest.length ≤ 64
    omega
  · intro hstart
    cases (List.cons_prefix_cons.mp hstart).1
  · intro hstart
    cases (List.cons_prefix_cons.mp hstart).1

/-! ## Both sides -/

def fullId (id : List Char) (isGroup : Bool) : List Char :=
  if isGroup then group ++ id else c2c ++ id

theorem prefix_of_encode {mark id : List Char} (h : Utf8.encode mark <+: Utf8.encode id) :
    Utf16.encode mark <+: Utf16.encode id := by
  obtain ⟨rest, hrest⟩ := h
  obtain ⟨id', hid, -⟩ := Utf8.encode_append_inj hrest
  rw [hid, Utf16.encode_append]
  exact List.prefix_append _ _

theorem not_marked {id : List Char} (h : Canonical (Utf16.encode id)) :
    ¬ Marked (Utf8.encode id) := by
  intro hmarked
  rcases hmarked with hc2c | hgroup
  · exact h.c2c (prefix_of_encode hc2c)
  · exact h.group (prefix_of_encode hgroup)

theorem sides_agree {id : List Char} (isGroup : Bool) (h : Canonical (Utf16.encode id)) :
    buildFullConversationID (some (Utf8.encode id)) (if isGroup then 2 else 1) =
        Utf8.encode (fullId id isGroup) ∧
      buildFullId (Utf16.encode id) isGroup = Utf16.encode (fullId id isGroup) ∧
      extractBaseConversationID (some (Utf8.encode (fullId id isGroup))) = Utf8.encode id ∧
      normalize (Utf16.encode (fullId id isGroup)) = Utf16.encode id ∧
      normalize (Utf16.encode id) = Utf16.encode id := by
  have hself := normalize_canonical h
  rw [build_plain (not_marked h), buildFullId, hself]
  cases isGroup with
  | true =>
    refine ⟨(Utf8.encode_append _ _).symm, (Utf16.encode_append _ _).symm, ?_, ?_, rfl⟩
    · rw [fullId, if_pos rfl, Utf8.encode_append]
      exact extract_group _
    · rw [fullId, if_pos rfl, Utf16.encode_append]
      exact normalize_group h
  | false =>
    refine ⟨(Utf8.encode_append _ _).symm, (Utf16.encode_append _ _).symm, ?_, ?_, rfl⟩
    · rw [fullId, if_neg Bool.false_ne_true, Utf8.encode_append]
      exact extract_c2c _
    · rw [fullId, if_neg Bool.false_ne_true, Utf16.encode_append]
      exact normalize_c2c h

theorem conversation_ids_convert :
    (∀ (id : Bytes) (convType : ℕ), extractBaseConversationID
        (some (buildFullConversationID (some id) convType)) = id ↔ ¬ Marked id) ∧
    (∀ (id : List Char) (isGroup : Bool), Canonical (Utf16.encode id) →
      buildFullConversationID (some (Utf8.encode id)) (if isGroup then 2 else 1) =
          Utf8.encode (fullId id isGroup) ∧
        buildFullId (Utf16.encode id) isGroup = Utf16.encode (fullId id isGroup) ∧
        extractBaseConversationID (some (Utf8.encode (fullId id isGroup))) = Utf8.encode id ∧
        normalize (Utf16.encode (fullId id isGroup)) = Utf16.encode id ∧
        normalize (Utf16.encode id) = Utf16.encode id) ∧
    (∀ id, normalize (normalize id) = normalize id ↔ Canonical (normalize id)) ∧
    (∀ id id', Canonical (normalize id) → Canonical (normalize id') → Plain (normalize id) →
      Plain (normalize id') → normalize id ≠ normalize id' →
        historyFileName id ≠ historyFileName id') ∧
    (∀ key : Units, key.length = 64 → (∀ u ∈ key, HexDigit u) → Canonical key ∧ Plain key) ∧
    ∀ rest : Units, rest.length ≤ 60 → (∀ u ∈ rest, Wordlike u) →
      Canonical (ofString "tox_" ++ rest) ∧ Plain (ofString "tox_" ++ rest) := by
  refine ⟨extract_build_iff, fun _ isGroup h => sides_agree isGroup h,
    fun _ => normalize_eq_self_iff, ?_, fun _ => friendKey_canonical, fun _ => groupId_canonical⟩
  intro id id' hid hid' hplain hplain' hne heq
  rw [historyFileName_eq hid hplain, historyFileName_eq hid' hplain'] at heq
  exact hne (List.append_cancel_right heq)

/-- An id with a mark loses it, two marks are not taken at once, and a reserved character shares a
    file name with an underscore. -/
theorem marked_id_changed :
    extractBaseConversationID (some (buildFullConversationID (some (makeGroupId 1 7)) 2)) ≠
        makeGroupId 1 7 ∧
      normalize (normalize (ofString "c2c_group_x")) ≠ normalize (ofString "c2c_group_x") ∧
      normalize (ofString "a:b") ≠ normalize (ofString "a_b") ∧
      historyFileName (ofString "a:b") = historyFileName (ofString "a_b") := by
  decide

end Tim2Tox.ConversationIds
