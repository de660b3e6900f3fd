import Tim2Tox.EventLines

set_option autoImplicit false

/-!
# Event lines read back

Every parser of the service returns the fields of the line that the native side has built, and the
native parser the instance id.
-/
namespace Tim2Tox.EventLines
open DartText (Units)

/-! ## Lines of fields -/

/-- Fields with a colon behind each. -/
def joined (fields : List Bytes) : Bytes := fields.flatMap (· ++ [58])

theorem joined_cons (field : Bytes) (fields : List Bytes) :
    joined (field :: fields) = (field ++ [58]) ++ joined fields := List.flatMap_cons

theorem joined_ascii {fields : List Bytes} (h : ∀ field ∈ fields, Plain field) : Ascii (joined fields) := by
  induction fields with
  | nil => exact fun b hb => absurd hb List.not_mem_nil
  | cons field fields ih =>
    rw [joined_cons]
    have hcolon : Ascii [58] := by decide
    exact (((h field List.mem_cons_self).ascii.append hcolon).append
      (ih fun f hf => h f (List.mem_cons_of_mem _ hf)))

theorem joined_length {fields : List Bytes} : (joined fields).length = (fields.map fun f => f.length + 1).sum := by
  rw [joined, List.length_flatMap]
  exact congrArg List.sum (List.map_congr_left fun f _ => List.length_append)

theorem splitOn_joined {fields : List Bytes} (h : ∀ field ∈ fields, Plain field) (rest : Units) :
    (widen (joined fields) ++ rest).splitOn 58 = fields.map widen ++ rest.splitOn 58 := by
  induction fields with
  | nil => rfl
  | cons field fields ih =>
    have hevent : widen (joined (field :: fields)) ++ rest =
        widen field ++ 58 :: (widen (joined fields) ++ rest) := by
      rw [joined_cons, widen_append, widen_append, List.append_assoc, List.append_assoc]
      rfl
    rw [hevent, splitOn_field (h field List.mem_cons_self).apart.1,
      ih fun f hf => h f (List.mem_cons_of_mem _ hf)]
    rfl

theorem polledText_joined {fields : List Bytes} (hne : fields ≠ []) (h : ∀ field ∈ fields, Plain field)
    (path : FilePath) :
    polledText (joined fields ++ path.text) = some (widen (joined fields) ++ path.units) := by
  have hjoined : joined fields ≠ [] := by
    obtain ⟨field, rest, rfl⟩ := List.exists_cons_of_ne_nil hne
    rw [joined_cons]
    simp
  have hnil : Ascii [] := fun b hb => absurd hb List.not_mem_nil
  have hpolled := polledText_line path.chars (joined_ascii h) hjoined hnil path.noZero
  rwa [List.append_nil, show widen [] = [] from rfl, List.append_nil] at hpolled

theorem startsWith_joined {kind : Bytes} {pattern : String} {length : ℕ} {fields : List Bytes}
    (h : Spelled pattern kind length) (rest : Units) :
    startsWith (widen (joined (kind :: fields)) ++ rest) pattern = true := by
  rw [joined_cons, widen_append, List.append_assoc]
  exact startsWith_append h.2.1 _

theorem snprintf_fits {size : ℕ} {text : Bytes} (h : text.length < size) : snprintf size text = text :=
  List.take_of_length_le (by omega)

theorem decimal_length {z : ℤ} (hlow : -2 ^ 63 ≤ z) (hhigh : z < 2 ^ 63) :
    (NumberTexts.decimal z).length ≤ 20 := by
  have hdigits : (NumberTexts.digits z.natAbs).length ≤ 19 :=
    NumberTexts.digits_length_le (by decide) (by omega)
  rw [NumberTexts.decimal]
  split_ifs
  · rw [List.length_cons]
    omega
  · omega

theorem routing_native {kind : Units} {z : ℤ} {rest : List Units} {least : ℕ} (hlow : -2 ^ 63 ≤ z)
    (hhigh : z < 2 ^ 63) (hlength : least ≤ rest.length + 2) :
    routing (kind :: widen (NumberTexts.decimal z) :: rest) least = (z, 2) := by
  have hread : tryParse ((kind :: widen (NumberTexts.decimal z) :: rest).getD 1 []) = some z :=
    tryParse_decimal hlow hhigh
  simp only [routing, hread]
  exact if_pos hlength

theorem splitOn_pos (s : Units) : 0 < (s.splitOn 58).length :=
  List.length_pos_of_ne_nil (List.splitOn_ne_nil 58 s)

/-! ## File events -/

section
variable (instanceId : Int64) (sender : FriendKey)

theorem fileDoneLine_joined (kind : UInt32) (path : FilePath) :
    fileDoneLine instanceId sender kind path = joined [ascii "file_done",
      NumberTexts.decimal instanceId.toInt, sender.userID, NumberTexts.digits kind.toNat] ++ path.text := by
  have hkind : kind.toNat < 2 ^ 32 := kind.toNat_lt
  have hlength := decimal_length instanceId.le_toInt instanceId.toInt_lt
  have hkindLength : (NumberTexts.digits kind.toNat).length ≤ 10 :=
    NumberTexts.digits_length_le (by decide) (by omega)
  have hname := kinds_spelled.1.1
  have hnine := kinds_spelled.1.2.2.2
  have hheader : ascii "file_done:" ++ NumberTexts.decimal instanceId.toInt ++ ascii ":" ++
      sender.userID ++ ascii ":" ++ NumberTexts.digits kind.toNat ++ ascii ":" = joined [ascii "file_done",
        NumberTexts.decimal instanceId.toInt, sender.userID, NumberTexts.digits kind.toNat] := by
    rw [hname, marks_spelled.1]
    simp only [joined, List.flatMap_cons, List.flatMap_nil, List.append_assoc, List.append_nil]
  rw [List.length_append, List.length_singleton] at hnine
  rw [fileDoneLine, hheader, snprintf_fits]
  rw [joined_length]
  simp only [List.map_cons, List.map_nil, List.sum_cons, List.sum_nil, sender.length]
  omega

theorem parseFileDoneEvent_line (kind : UInt32) (path : FilePath) :
    (polledText (fileDoneLine instanceId sender kind path)).bind parseFileDoneEvent =
      some ⟨instanceId.toInt, sender.units, kind.toNat, path.units⟩ := by
  have hkind : kind.toNat < 2 ^ 32 := kind.toNat_lt
  have hname := kinds_spelled.1
  have hplain : ∀ field ∈ [ascii "file_done", NumberTexts.decimal instanceId.toInt, sender.userID,
      NumberTexts.digits kind.toNat], Plain field := by
    simp only [List.forall_mem_cons]
    exact ⟨hname.2.2.1, plain_decimal _, sender.plain, plain_digits _,
      fun f hf => absurd hf List.not_mem_nil⟩
  have hpath := splitOn_pos path.units
  have hsplit : (widen (joined [ascii "file_done", NumberTexts.decimal instanceId.toInt, sender.userID,
      NumberTexts.digits kind.toNat]) ++ path.units).splitOn 58 = widen (ascii "file_done") ::
        widen (NumberTexts.decimal instanceId.toInt) :: sender.units ::
        widen (NumberTexts.digits kind.toNat) :: path.units.splitOn 58 := splitOn_joined hplain _
  rw [fileDoneLine_joined, polledText_joined (List.cons_ne_nil _ _) hplain, Option.bind_some,
    parseFileDoneEvent, if_pos (startsWith_joined hname _), hsplit]
  dsimp only
  rw [routing_native instanceId.le_toInt instanceId.toInt_lt (by simp only [List.length_cons]; omega)]
  dsimp only
  rw [if_neg (by simp only [List.length_cons]; omega)]
  change some (FileDoneEvent.mk _ _ ((tryParse (widen (NumberTexts.digits kind.toNat))).getD 0)
    ([58].intercalate (path.units.splitOn 58))) = _
  rw [tryParse_digits (by omega), List.intercalate_splitOn]
  rfl

theorem progressRecvLine_joined (received size : UInt64) (path : FilePath) :
    progressRecvLine instanceId sender received size path = joined [ascii "progress_recv",
      NumberTexts.decimal instanceId.toInt, sender.userID, NumberTexts.digits received.toNat,
      NumberTexts.digits size.toNat] ++ path.text := by
  have hlength := decimal_length instanceId.le_toInt instanceId.toInt_lt
  have hdigits : ∀ n : UInt64, (NumberTexts.digits n.toNat).length ≤ 20 := by
    intro n
    have hn : n.toNat < 2 ^ 64 := n.toNat_lt
    exact NumberTexts.digits_length_le (by decide) (by omega)
  have hreceived := hdigits received
  have hsize := hdigits size
  have hname := kinds_spelled.2.1.1
  have hthirteen := kinds_spelled.2.1.2.2.2
  have hheader : ascii "progress_recv:" ++ NumberTexts.decimal instanceId.toInt ++ ascii ":" ++
      sender.userID ++ ascii ":" ++ NumberTexts.digits received.toNat ++ ascii ":" ++
      NumberTexts.digits size.toNat ++ ascii ":" = joined [ascii "progress_recv",
        NumberTexts.decimal instanceId.toInt, sender.userID, NumberTexts.digits received.toNat,
        NumberTexts.digits size.toNat] := by
    rw [hname, marks_spelled.1]
    simp only [joined, List.flatMap_cons, List.flatMap_nil, List.append_assoc, List.append_nil]
  rw [List.length_append, List.length_singleton] at hthirteen
  rw [progressRecvLine, hheader, snprintf_fits]
  rw [joined_length]
  simp only [List.map_cons, List.map_nil, List.sum_cons, List.sum_nil, sender.length]
  omega

/-- A size from 2^63 on is read as 0. -/
theorem parseProgressRecvEvent_line (received size : UInt64) (path : FilePath) :
    (polledText (progressRecvLine instanceId sender received size path)).bind parseProgressRecvEvent =
      some ⟨instanceId.toInt, sender.units,
        (tryParse (widen (NumberTexts.digits received.toNat))).getD 0,
        (tryParse (widen (NumberTexts.digits size.toNat))).getD 0, path.units⟩ := by
  have hname := kinds_spelled.2.1
  have hplain : ∀ field ∈ [ascii "progress_recv", NumberTexts.decimal instanceId.toInt, sender.userID,
      NumberTexts.digits received.toNat, NumberTexts.digits size.toNat], Plain field := by
    simp only [List.forall_mem_cons]
    exact ⟨hname.2.2.1, plain_decimal _, sender.plain, plain_digits _, plain_digits _,
      fun f hf => absurd hf List.not_mem_nil⟩
  have hpath := splitOn_pos path.units
  have hsplit : (widen (joined [ascii "progress_recv", NumberTexts.decimal instanceId.toInt,
      sender.userID, NumberTexts.digits received.toNat, NumberTexts.digits size.toNat]) ++
        path.units).splitOn 58 = widen (ascii "progress_recv") ::
        widen (NumberTexts.decimal instanceId.toInt) :: sender.units ::
        widen (NumberTexts.digits received.toNat) :: widen (NumberTexts.digits size.toNat) ::
        path.units.splitOn 58 := splitOn_joined hplain _
  rw [progressRecvLine_joined, polledText_joined (List.cons_ne_nil _ _) hplain, Option.bind_some,
    parseProgressRecvEvent, if_pos (startsWith_joined hname _), hsplit]
  dsimp only
  rw [routing_native instanceId.le_toInt instanceId.toInt_lt (by simp only [List.length_cons]; omega)]
  dsimp only
  rw [if_neg (by simp only [List.length_cons]; omega)]
  change some (ProgressRecvEvent.mk _ _ _ _ ([58].intercalate (path.units.splitOn 58))) = _
  rw [List.intercalate_splitOn]
  rfl

end

/-! ## Messages -/

section
variable (groupID : GroupID) (sender : FriendKey)

theorem c2cBinary_units (route : UInt8) (data : Bytes) :
    polledText (ascii "c2cbin:" ++ sender.userID ++ ascii ":" ++ hexEncodeWithRoute route data) =
      some (widen (ascii "c2cbin" ++ [58]) ++
        (sender.units ++ 58 :: widen (lowerHex (route :: data)))) := by
  have hkind := kinds_spelled.2.2.1
  have hcolon : Ascii [58] := by decide
  have hline : Ascii (ascii "c2cbin" ++ [58] ++ sender.userID ++ [58] ++ lowerHex (route :: data)) :=
    ((hkind.ascii.append sender.plain.ascii).append hcolon).append
      (plain_of_hex (lowerHex_hex _)).ascii
  have hencode : hexEncodeWithRoute route data = lowerHex (route :: data) := by
    rw [lowerHex, List.flatMap_cons]
    rfl
  rw [hkind.1, marks_spelled.1, hencode, polledText_ascii hline]
  · simp only [widen_append, List.append_assoc]
    rfl
  · simp

theorem parseC2cBinaryEvent_line (route : UInt8) (data : Bytes) :
    parseC2cBinaryEvent (widen (ascii "c2cbin" ++ [58]) ++
        (sender.units ++ 58 :: widen (lowerHex (route :: data)))) =
      if 4 < route then none
      else (utf8Decode data).map fun payload => ⟨sender.units, route.toNat, payload⟩ := by
  have hkind := kinds_spelled.2.2.1
  have hlength : (widen (ascii "c2cbin" ++ [58])).length = 7 := by rw [widen_length, hkind.2.2.2]
  have hindex := indexOf_field (widen (ascii "c2cbin" ++ [58])) sender.units
    (widen (lowerHex (route :: data))) sender.apart.1
  have hsender := substring_field (widen (ascii "c2cbin" ++ [58])) sender.units
    (58 :: widen (lowerHex (route :: data)))
  have hpayload := drop_field (widen (ascii "c2cbin" ++ [58])) sender.units 58
    (widen (lowerHex (route :: data)))
  rw [hlength] at hindex hsender hpayload
  rw [parseC2cBinaryEvent, if_pos (startsWith_append hkind.2.1 _), hindex]
  dsimp only
  rw [hsender, if_pos sender.matches, hpayload, hexPayloadBytes_lowerHex,
    if_neg (List.cons_ne_nil route data)]

theorem encode_eq_nil {cs : List Char} : Utf16.encode cs = [] ↔ cs = [] := by
  constructor
  · intro h
    exact Utf16.encode_inj h
  · intro h
    rw [h]
    rfl

/-- The header of a group line is taken apart. -/
theorem header_field (tail : Units) :
    indexOf (groupID.units ++ 124 :: tail) 124 0 = some groupID.units.length ∧
      (groupID.units ++ 124 :: tail).take groupID.units.length = groupID.units ∧
      (groupID.units ++ 124 :: tail).drop (groupID.units.length + 1) = tail := by
  have hdrop := drop_field [] groupID.units 124 tail
  rw [List.nil_append, List.length_nil, Nat.zero_add] at hdrop
  exact ⟨indexOf_first groupID.apart.2, List.take_left, hdrop⟩

theorem groupCustom_units (data : Bytes) :
    polledText (onRecvGroupCustomMessage groupID sender data) =
      some (widen (ascii "gcustombin" ++ [58]) ++ ((groupID.units ++ 124 :: sender.units) ++
        58 :: widen (lowerHex data))) := by
  have hkind := kinds_spelled.2.2.2.1
  have hmarks : Ascii [124] ∧ Ascii [58] := by decide
  have htail : Ascii ([124] ++ sender.userID ++ [58] ++ lowerHex data) :=
    ((hmarks.1.append sender.plain.ascii).append hmarks.2).append
      (plain_of_hex (lowerHex_hex _)).ascii
  have hpolled := polledText_line groupID.chars hkind.ascii (by simp) htail groupID.noZero
  have hline : onRecvGroupCustomMessage groupID sender data = ascii "gcustombin" ++ [58] ++
      Utf8.encode groupID.chars ++ ([124] ++ sender.userID ++ [58] ++ lowerHex data) := by
    rw [onRecvGroupCustomMessage, hkind.1, marks_spelled.1, marks_spelled.2.1, GroupID.text]
    simp only [List.append_assoc]
  rw [hline, hpolled]
  simp only [widen_append, List.append_assoc]
  rfl

theorem parseGroupCustomBinaryEvent_line (data : Bytes) :
    parseGroupCustomBinaryEvent (widen (ascii "gcustombin" ++ [58]) ++ ((groupID.units ++ 124 :: sender.units) ++
        58 :: widen (lowerHex data))) =
      if groupID.chars = [] ∨ data = [] then none
      else some ⟨groupID.units, sender.units, utf8DecodeMalformed data⟩ := by
  have hkind := kinds_spelled.2.2.2.1
  have hlength : (widen (ascii "gcustombin" ++ [58])).length = 11 := by rw [widen_length, hkind.2.2.2]
  have hheader : 58 ∉ groupID.units ++ 124 :: sender.units := by
    rw [List.mem_append, List.mem_cons]
    rintro (h | h | h)
    · exact groupID.apart.1 h
    · cases h
    · exact sender.apart.1 h
  have hindex := indexOf_field (widen (ascii "gcustombin" ++ [58])) _ (widen (lowerHex data)) hheader
  have hsubstring := substring_field (widen (ascii "gcustombin" ++ [58])) (groupID.units ++ 124 :: sender.units)
    (58 :: widen (lowerHex data))
  have hpayload := drop_field (widen (ascii "gcustombin" ++ [58])) (groupID.units ++ 124 :: sender.units) 58
    (widen (lowerHex data))
  rw [hlength] at hindex hsubstring hpayload
  obtain ⟨hbar, htake, hdrop⟩ := header_field groupID sender.units
  have hsender := List.length_pos_of_ne_nil sender.units_ne_nil
  rw [parseGroupCustomBinaryEvent, if_pos (startsWith_append hkind.2.1 _), hindex]
  dsimp only
  rw [hsubstring, hbar]
  dsimp only
  rw [htake, hdrop, hpayload, hexPayloadBytes_lowerHex, if_pos sender.matches, List.length_append,
    List.length_cons]
  have hend : decide (groupID.units.length + 1 = groupID.units.length + (sender.units.length + 1)) =
      false := decide_eq_false (by omega)
  rw [hend, Bool.or_false]
  by_cases hgroup : groupID.chars = []
  · have hunits : groupID.units.length = 0 := List.length_eq_zero_iff.mpr (encode_eq_nil.mpr hgroup)
    rw [if_pos (decide_eq_true hunits), if_pos (Or.inl hgroup)]
  · have hunits : ¬ groupID.units.length = 0 :=
      fun h => hgroup (encode_eq_nil.mp (List.length_eq_zero_iff.mp h))
    rw [if_neg (by rw [decide_eq_true_eq]; exact hunits)]
    by_cases hdata : data = []
    · rw [if_pos hdata, if_pos (Or.inr hdata)]
      rfl
    · rw [if_neg hdata, if_neg (not_or.mpr ⟨hgroup, hdata⟩)]
      rfl

/-! ## Group headers -/

/-- What a message id adds to a header. -/
def idField (messageId : Option UInt32) : Bytes :=
  match messageId with
  | some messageId => [124, 109] ++ NumberTexts.digits messageId.toNat
  | none => []

theorem groupHeader_eq (messageId : Option UInt32) :
    groupHeader groupID sender (groupMessageIdOverride messageId) =
      Utf8.encode groupID.chars ++ ([124] ++ sender.userID ++ idField messageId) := by
  rw [groupHeader, GroupID.text, marks_spelled.2.1, List.append_assoc, List.append_assoc, List.append_assoc]
  cases messageId with
  | none => rfl
  | some messageId =>
    have hid : messageId.toNat < 2 ^ 32 := messageId.toNat_lt
    have hnat : ((messageId.toNat : ℤ)).toNat % 2 ^ 32 = messageId.toNat := by omega
    rw [groupMessageIdOverride, if_pos (by omega), hnat, marks_spelled.2.2.1]
    rfl

theorem idField_ascii (messageId : Option UInt32) : Ascii (idField messageId) := by
  cases messageId with
  | none => exact fun b hb => absurd hb List.not_mem_nil
  | some messageId =>
    have hmark : Ascii [124, 109] := by decide
    exact hmark.append (plain_digits _).ascii

theorem idField_colon (messageId : Option UInt32) : 58 ∉ widen (idField messageId) := by
  cases messageId with
  | none => exact List.not_mem_nil
  | some messageId =>
    rw [idField, widen_append, List.mem_append]
    rintro (h | h)
    · exact absurd h (by decide)
    · exact (plain_digits _).apart.1 h

theorem parseGroupHeader_line (messageId : Option UInt32) :
    parseGroupHeader (groupID.units ++ 124 :: (sender.units ++ widen (idField messageId))) =
      if groupID.chars = [] then none
      else some ⟨groupID.units, sender.units, messageId.map fun id => (id.toNat : ℤ)⟩ := by
  obtain ⟨hbar, htake, hdrop⟩ := header_field groupID (sender.units ++ widen (idField messageId))
  have hsender := List.length_pos_of_ne_nil sender.units_ne_nil
  rw [parseGroupHeader, hbar]
  dsimp only
  rw [htake, hdrop, List.length_append, List.length_cons, List.length_append]
  have hend : decide (groupID.units.length + 1 = groupID.units.length +
      (sender.units.length + (widen (idField messageId)).length + 1)) = false :=
    decide_eq_false (by omega)
  rw [hend, Bool.or_false]
  by_cases hgroup : groupID.chars = []
  · have hunits : groupID.units.length = 0 := List.length_eq_zero_iff.mpr (encode_eq_nil.mpr hgroup)
    rw [if_pos (decide_eq_true hunits), if_pos hgroup]
  · have hunits : ¬ groupID.units.length = 0 :=
      fun h => hgroup (encode_eq_nil.mp (List.length_eq_zero_iff.mp h))
    rw [if_neg (by rw [decide_eq_true_eq]; exact hunits), if_neg hgroup]
    cases messageId with
    | none =>
      have hfield : sender.units ++ widen (idField none) = sender.units := List.append_nil _
      rw [hfield, indexOf_none sender.apart.2]
      rfl
    | some messageId =>
      have hid : messageId.toNat < 2 ^ 32 := messageId.toNat_lt
      have hfield : widen (idField (some messageId)) =
          124 :: 109 :: widen (NumberTexts.digits messageId.toNat) := rfl
      have hmark : startsWith (109 :: widen (NumberTexts.digits messageId.toNat)) "m" = true :=
        startsWith_append marks_spelled.2.2.2 (widen (NumberTexts.digits messageId.toNat))
      have hrest := drop_field [] sender.units 124 (109 :: widen (NumberTexts.digits messageId.toNat))
      rw [List.nil_append, List.length_nil, Nat.zero_add] at hrest
      rw [hfield, indexOf_first sender.apart.2]
      dsimp only
      rw [List.take_left, if_neg sender.units_ne_nil, hrest, if_pos hmark]
      change some (GroupHeader.mk _ _ ((tryParse (widen (NumberTexts.digits messageId.toNat))).filter
        (0 ≤ ·))) = _
      rw [tryParse_digits (by omega), Option.filter_some, if_pos (decide_eq_true (by omega))]
      rfl

theorem recoverable_kind {kind : Bytes} (hmem : kind ∈ recoverablePrefixes)
    (hshown : firstChars kind = kind) (rest : Bytes) :
    recoverablePrefixes.any (·.isPrefixOf (firstChars (kind ++ rest))) = true := by
  rw [List.any_eq_true]
  refine ⟨kind, hmem, ?_⟩
  rw [List.isPrefixOf_iff_prefix, firstChars, List.take_append, List.filter_append,
    ← firstChars.eq_def kind, hshown]
  exact List.prefix_append _ _

/-- The header that the service takes from a polled group text. -/
theorem eventHeader_line (action : Bool) (messageId : Option UInt32) (text : Bytes) :
    (polledText (onRecvGroupTextMessage action messageId groupID sender text)).bind
        (eventHeader (groupTextKind action)) =
      some (groupID.units ++ 124 :: (sender.units ++ widen (idField messageId))) := by
  have hkind : Ascii (ascii (groupTextKind action)) ∧ ascii (groupTextKind action) ≠ [] ∧
      ascii (groupTextKind action) ∈ recoverablePrefixes ∧
      firstChars (ascii (groupTextKind action)) = ascii (groupTextKind action) ∧
      widen (ascii (groupTextKind action)) = DartText.ofString (groupTextKind action) ∧
      (widen (ascii (groupTextKind action))).length = (groupTextKind action).length := by
    cases action <;> decide
  obtain ⟨hascii, hne, hmem, hshown, hwiden, hlength⟩ := hkind
  have hmarks : Ascii [124] ∧ Ascii [58] := by decide
  have hmiddle : Ascii ([124] ++ sender.userID ++ idField messageId ++ [58]) :=
    ((hmarks.1.append sender.plain.ascii).append (idField_ascii messageId)).append hmarks.2
  have htext : 0 ∉ HexDecoders.cString text := by
    intro h
    have hpos := List.mem_takeWhile_imp h
    exact absurd hpos (by decide)
  have hline : onRecvGroupTextMessage action messageId groupID sender text =
      ascii (groupTextKind action) ++ Utf8.encode groupID.chars ++
        ([124] ++ sender.userID ++ idField messageId ++ [58]) ++ HexDecoders.cString text := by
    rw [onRecvGroupTextMessage, groupHeader_eq, marks_spelled.1]
    simp only [List.append_assoc]
  obtain ⟨rest, hpolled⟩ := polledText_tail hascii hne hmiddle groupID.noZero htext (by
    rw [List.append_assoc, List.append_assoc]
    exact recoverable_kind hmem hshown _)
  have hevent : widen (ascii (groupTextKind action)) ++ Utf16.encode groupID.chars ++
      widen ([124] ++ sender.userID ++ idField messageId ++ [58]) ++ rest =
        widen (ascii (groupTextKind action)) ++
          ((groupID.units ++ 124 :: (sender.units ++ widen (idField messageId))) ++ 58 :: rest) := by
    have hmiddle : widen ([124] ++ sender.userID ++ idField messageId ++ [58]) =
        124 :: (sender.units ++ widen (idField messageId)) ++ [58] := by
      simp only [widen_append]
      rfl
    rw [hmiddle]
    simp only [List.append_assoc, List.cons_append, List.nil_append]
    rfl
  have hheader : 58 ∉ groupID.units ++ 124 :: (sender.units ++ widen (idField messageId)) := by
    rw [List.mem_append, List.mem_cons, List.mem_append]
    rintro (h | h | h | h)
    · exact groupID.apart.1 h
    · cases h
    · exact sender.apart.1 h
    · exact idField_colon messageId h
  have hindex := indexOf_field (widen (ascii (groupTextKind action))) _ rest hheader
  have hsubstring := substring_field (widen (ascii (groupTextKind action)))
    (groupID.units ++ 124 :: (sender.units ++ widen (idField messageId))) (58 :: rest)
  rw [hlength] at hindex hsubstring
  rw [hline, hpolled, Option.bind_some, hevent, eventHeader, if_pos (startsWith_append hwiden _), hindex]
  dsimp only
  rw [if_pos (by rw [List.length_append, List.length_cons]; omega), hsubstring]

end

/-! ## Instance ids -/

/-- The line is of a routed kind, and its first field is the positive number, an `int64_t`. -/
def Carries (line : Bytes) (instanceId : ℤ) : Prop :=
  ∃ routed ∈ kRoutedPrefixes, ∃ text rest, line = routed ++ (text ++ 58 :: rest) ∧ text ≠ [] ∧
    (∀ b ∈ text, NumberTexts.isDigit b = true) ∧ (NumberTexts.readDigits text : ℤ) = instanceId ∧
    0 < instanceId ∧ instanceId < 2 ^ 63

theorem find_routed {routed line : Bytes} (hmem : routed ∈ kRoutedPrefixes) (h : routed <+: line) :
    kRoutedPrefixes.find? (·.isPrefixOf line) = some routed := by
  have hapart : ∀ p ∈ kRoutedPrefixes, ∀ q ∈ kRoutedPrefixes, p <+: q → p = q := by decide
  cases hfind : kRoutedPrefixes.find? (·.isPrefixOf line) with
  | none =>
    have hnot := List.find?_eq_none.mp hfind routed hmem
    exact absurd (List.isPrefixOf_iff_prefix.mpr h) hnot
  | some p =>
    have hfound : (fun q : Bytes => q.isPrefixOf line) p = true :=
      List.find?_some (p := fun q : Bytes => q.isPrefixOf line) hfind
    have hp := List.isPrefixOf_iff_prefix.mp hfound
    have hpmem := List.mem_of_find?_eq_some hfind
    cases List.prefix_or_prefix_of_prefix hp h with
    | inl hle => rw [hapart p hpmem routed hmem hle]
    | inr hle => rw [hapart routed hmem p hpmem hle]

theorem idText_field {routed text rest : Bytes} (hmem : routed ∈ kRoutedPrefixes) (h : 58 ∉ text) :
    idText (routed ++ (text ++ 58 :: rest)) = some text := by
  rw [idText, find_routed hmem (List.prefix_append _ _)]
  dsimp only
  rw [List.drop_left, if_pos (List.mem_append_right _ List.mem_cons_self), takeWhile_field h]

theorem idText_some {line text : Bytes} (h : idText line = some text) :
    ∃ routed ∈ kRoutedPrefixes, ∃ rest, line = routed ++ (text ++ 58 :: rest) := by
  rw [idText] at h
  cases hfind : kRoutedPrefixes.find? (·.isPrefixOf line) with
  | none =>
    rw [hfind] at h
    cases h
  | some routed =>
    rw [hfind] at h
    dsimp only at h
    have hfound : (fun q : Bytes => q.isPrefixOf line) routed = true :=
      List.find?_some (p := fun q : Bytes => q.isPrefixOf line) hfind
    obtain ⟨after, hafter⟩ := List.isPrefixOf_iff_prefix.mp hfound
    rw [← hafter, List.drop_left] at h
    split_ifs at h with hcolon
    obtain ⟨field, rest, hfield, hsplit⟩ := List.eq_append_cons_of_mem hcolon
    subst hfield
    rw [takeWhile_field hsplit] at h
    cases h
    exact ⟨routed, List.mem_of_find?_eq_some hfind, rest, hafter.symm⟩

theorem digits_apart {text : Bytes} (h : ∀ b ∈ text, NumberTexts.isDigit b = true) : 58 ∉ text := by
  intro hmem
  exact absurd (h 58 hmem) (by decide)

/-- A text of digits is read whole. -/
theorem fromChars_digits {text : Bytes} (hne : text ≠ [])
    (h : ∀ b ∈ text, NumberTexts.isDigit b = true) :
    fromChars text = (if (NumberTexts.readDigits text : ℤ) < 2 ^ 63 then
      some (NumberTexts.readDigits text : ℤ) else none, []) := by
  have hwhole : text.takeWhile NumberTexts.isDigit = text := List.takeWhile_eq_self_iff.mpr h
  have hsign : ¬ text.head? = some 45 := by
    intro hhead
    exact absurd (h 45 (List.mem_of_head? hhead)) (by decide)
  rw [fromChars]
  dsimp only
  rw [if_neg hsign, hwhole, if_neg hne, List.drop_length, decide_eq_false hsign, NumberTexts.signed,
    if_neg Bool.false_ne_true]
  have hlow : -2 ^ 63 ≤ (NumberTexts.readDigits text : ℤ) := by omega
  by_cases hrange : (NumberTexts.readDigits text : ℤ) < 2 ^ 63
  · rw [if_pos hrange, if_pos ⟨hlow, hrange⟩]
  · have hnot : ¬(-2 ^ 63 ≤ (NumberTexts.readDigits text : ℤ) ∧
        (NumberTexts.readDigits text : ℤ) < 2 ^ 63) := fun hboth => hrange hboth.2
    rw [if_neg hrange, if_neg hnot]

theorem parse_digits {routed text : Bytes} (rest : Bytes) (hmem : routed ∈ kRoutedPrefixes) (hne : text ≠ [])
    (h : ∀ b ∈ text, NumberTexts.isDigit b = true) :
    parseInstanceIdFromLine (routed ++ (text ++ 58 :: rest)) =
      if (NumberTexts.readDigits text : ℤ) < 2 ^ 63 then (NumberTexts.readDigits text : ℤ) else 0 := by
  have hhead : text.head?.any NumberTexts.isDigit = true := by
    obtain ⟨b, bs, rfl⟩ := List.exists_cons_of_ne_nil hne
    exact h b List.mem_cons_self
  rw [parseInstanceIdFromLine, idText_field hmem (digits_apart h)]
  dsimp only
  rw [if_pos hhead, fromChars_digits hne h]
  by_cases hrange : (NumberTexts.readDigits text : ℤ) < 2 ^ 63
  · rw [if_pos hrange, if_pos hrange]
    dsimp only
    split_ifs <;> omega
  · rw [if_neg hrange, if_neg hrange]

theorem parse_carried {line : Bytes} {instanceId : ℤ} (h : Carries line instanceId) :
    parseInstanceIdFromLine line = instanceId := by
  obtain ⟨routed, hmem, text, rest, rfl, hne, hdigits, rfl, -, hhigh⟩ := h
  rw [parse_digits rest hmem hne hdigits, if_pos hhigh]

/-- What is not 0 is carried. -/
theorem carried_of_parse {line : Bytes} (h : parseInstanceIdFromLine line ≠ 0) :
    Carries line (parseInstanceIdFromLine line) := by
  rw [parseInstanceIdFromLine] at h
  cases htext : idText line with
  | none =>
    rw [htext] at h
    contradiction
  | some text =>
    rw [htext] at h
    dsimp only at h
    split_ifs at h with hhead
    · obtain ⟨routed, hmem, rest, rfl⟩ := idText_some htext
      have hsign : ¬ text.head? = some 45 := by
        intro hminus
        rw [hminus] at hhead
        exact absurd hhead (by decide)
      have hne : text ≠ [] := by
        rintro rfl
        cases hhead
      have hall : ∀ b ∈ text, NumberTexts.isDigit b = true := by
        by_contra hnot
        have hdrop : text.drop (text.takeWhile NumberTexts.isDigit).length ≠ [] := by
          intro hnil
          rw [List.drop_eq_nil_iff] at hnil
          apply hnot
          rw [← List.takeWhile_eq_self_iff]
          exact (List.takeWhile_prefix _).eq_of_length_le hnil
        rw [fromChars] at h
        dsimp only at h
        rw [if_neg hsign] at h
        split_ifs at h
        · exact h rfl
        · obtain ⟨b, bs, hb⟩ := List.exists_cons_of_ne_nil hdrop
          rw [hb] at h
          exact h rfl
        · exact h rfl
      have hparse := parse_digits rest hmem hne hall
      by_cases hrange : (NumberTexts.readDigits text : ℤ) < 2 ^ 63
      · rw [if_pos hrange] at hparse
        rw [hparse]
        refine ⟨routed, hmem, text, rest, rfl, hne, hall, rfl, ?_, hrange⟩
        rw [fromChars_digits hne hall, if_pos hrange] at h
        dsimp only at h
        split_ifs at h <;> omega
      · rw [fromChars_digits hne hall, if_neg hrange] at h
        contradiction
    · contradiction

/-- The instance id in front of a routed line. -/
theorem parse_decimal {routed rest : Bytes} (hmem : routed ∈ kRoutedPrefixes) (instanceId : Int64) :
    parseInstanceIdFromLine (routed ++ (NumberTexts.decimal instanceId.toInt ++ 58 :: rest)) =
      if 0 < instanceId.toInt then instanceId.toInt else 0 := by
  have hhigh := instanceId.toInt_lt
  rw [NumberTexts.decimal]
  by_cases hneg : instanceId.toInt < 0
  · have hcolon : 58 ∉ (45 :: NumberTexts.digits instanceId.toInt.natAbs : Bytes) := by
      intro h
      cases List.mem_cons.mp h with
      | inl h => exact absurd h (by decide)
      | inr h => exact digits_apart (fun b hb => NumberTexts.isDigit_of_mem hb) h
    rw [if_pos hneg, if_neg (by omega), parseInstanceIdFromLine, idText_field hmem hcolon]
    rfl
  · rw [if_neg hneg, parse_digits rest hmem (NumberTexts.digits_ne_nil _)
      (fun b hb => NumberTexts.isDigit_of_mem hb), NumberTexts.readDigits_digits]
    split_ifs <;> omega

theorem joined_routed (kind : Bytes) (z : Bytes) (fields : List Bytes) (rest : Bytes) :
    joined (kind :: z :: fields) ++ rest = (kind ++ [58]) ++ (z ++ 58 :: (joined fields ++ rest)) := by
  rw [joined_cons, joined_cons]
  simp only [List.append_assoc, List.cons_append, List.nil_append]

theorem parse_fileDoneLine (instanceId : Int64) (sender : FriendKey) (kind : UInt32) (path : FilePath) :
    parseInstanceIdFromLine (fileDoneLine instanceId sender kind path) =
      if 0 < instanceId.toInt then instanceId.toInt else 0 := by
  rw [fileDoneLine_joined, joined_routed]
  exact parse_decimal (by decide) instanceId

theorem parse_progressRecvLine (instanceId : Int64) (sender : FriendKey) (received size : UInt64)
    (path : FilePath) : parseInstanceIdFromLine (progressRecvLine instanceId sender received size path) =
      if 0 < instanceId.toInt then instanceId.toInt else 0 := by
  rw [progressRecvLine_joined, joined_routed]
  exact parse_decimal (by decide) instanceId

/-! ## Payloads -/

/-- A text without a leading byte order mark. -/
def dropMark : List Char → List Char
  | [] => []
  | c :: cs => if c = Char.ofNat 0xFEFF then cs else c :: cs

theorem withoutMark_encode (cs : List Char) : withoutMark (Utf8.encode cs) = Utf8.encode (dropMark cs) := by
  have hmark : String.utf8EncodeChar (Char.ofNat 0xFEFF) = [0xEF, 0xBB, 0xBF] := by decide
  cases cs with
  | nil => rfl
  | cons c cs =>
    rw [dropMark]
    by_cases hc : c = Char.ofNat 0xFEFF
    · rw [if_pos hc, hc, Utf8.encode_cons, hmark]
      rfl
    · rw [if_neg hc, withoutMark, if_neg]
      intro htake
      apply hc
      have hsplit := List.take_append_drop 3 (Utf8.encode (c :: cs))
      rw [htake, ← hmark, Utf8.encode_cons] at hsplit
      exact (Utf8.utf8EncodeChar_inj ((Utf8.unit_utf8EncodeChar _).append_inj
        (Utf8.unit_utf8EncodeChar c) hsplit).1).symm

theorem utf8Decode_text (cs : List Char) :
    utf8Decode (Utf8.encode cs) = some (Utf16.encode (dropMark cs)) := by
  rw [utf8Decode, withoutMark_encode, Utf8.decode_encode]
  rfl

theorem utf8DecodeMalformed_text (cs : List Char) :
    utf8DecodeMalformed (Utf8.encode cs) = Utf16.encode (dropMark cs) := by
  rw [utf8DecodeMalformed, withoutMark_encode, Utf8.decodeLossy_encode]

theorem utf8Decode_malformed {data : Bytes} (h : ¬ Utf8.WellFormed data) : utf8Decode data = none := by
  have hmark : Utf8.WellFormed [0xEF, 0xBB, 0xBF] := ⟨[Char.ofNat 0xFEFF], by decide⟩
  have hrest : ¬ Utf8.WellFormed (withoutMark data) := by
    rw [withoutMark]
    split_ifs with htake
    · intro hwell
      apply h
      have hboth := hmark.append hwell
      rwa [← htake, List.take_append_drop] at hboth
    · exact h
  rw [utf8Decode, Utf8.decode_eq_none hrest]
  rfl

/-! ## Lines read back -/

/-- A friend's custom message comes back: a text as it is shown, bytes that are none not at all. -/
structure C2cReadBack (shown : List Char → List Char) (routeOverride : Option UInt8) (sender : FriendKey)
    (data : Bytes) : Prop where
  text : ∀ cs, data = Utf8.encode cs →
    (polledText (onRecvC2CCustomMessage routeOverride sender data)).bind parseC2cBinaryEvent =
      some ⟨sender.units, (routeOverride.getD 3).toNat, Utf16.encode (shown cs)⟩
  malformed : ¬ Utf8.WellFormed data →
    (polledText (onRecvC2CCustomMessage routeOverride sender data)).bind parseC2cBinaryEvent = none

/-- A group's custom message comes back: a text as it is shown, bytes that are none with replacement
    characters. -/
structure GroupCustomReadBack (shown : List Char → List Char) (groupID : GroupID) (sender : FriendKey)
    (data : Bytes) : Prop where
  text : ∀ cs, data = Utf8.encode cs →
    (polledText (onRecvGroupCustomMessage groupID sender data)).bind parseGroupCustomBinaryEvent =
      some ⟨groupID.units, sender.units, Utf16.encode (shown cs)⟩
  malformed : ¬ Utf8.WellFormed data →
    (polledText (onRecvGroupCustomMessage groupID sender data)).bind parseGroupCustomBinaryEvent =
      some ⟨groupID.units, sender.units, utf8DecodeMalformed data⟩

def GroupTextReadBack (action : Bool) (messageId : Option UInt32) (groupID : GroupID)
    (sender : FriendKey) (text : Bytes) : Prop :=
  ((polledText (onRecvGroupTextMessage action messageId groupID sender text)).bind
      (eventHeader (groupTextKind action))).bind parseGroupHeader =
    some ⟨groupID.units, sender.units, messageId.map fun id => (id.toNat : ℤ)⟩

def FileDoneReadBack (instanceId : Int64) (sender : FriendKey) (kind : UInt32) (path : FilePath) : Prop :=
  (polledText (fileDoneLine instanceId sender kind path)).bind parseFileDoneEvent =
    some ⟨instanceId.toInt, sender.units, kind.toNat, path.units⟩

def ProgressRecvReadBack (instanceId : Int64) (sender : FriendKey) (received size : UInt64)
    (path : FilePath) : Prop :=
  (polledText (progressRecvLine instanceId sender received size path)).bind parseProgressRecvEvent =
    some ⟨instanceId.toInt, sender.units, received.toNat, size.toNat, path.units⟩

/-- The native parser returns the positive instance id of the line, and 0 where there is none. -/
structure InstanceIdRead (line : Bytes) : Prop where
  carried : ∀ instanceId, Carries line instanceId → parseInstanceIdFromLine line = instanceId
  missing : (∀ instanceId, ¬ Carries line instanceId) → parseInstanceIdFromLine line = 0

theorem c2c_read (routeOverride : Option UInt8) (sender : FriendKey) (data : Bytes) :
    (polledText (onRecvC2CCustomMessage routeOverride sender data)).bind parseC2cBinaryEvent =
      if 4 < routeOverride.getD 3 then none
      else (utf8Decode data).map fun payload => ⟨sender.units, (routeOverride.getD 3).toNat, payload⟩ := by
  rw [onRecvC2CCustomMessage, c2cBinary_units, Option.bind_some, parseC2cBinaryEvent_line]

theorem groupCustom_read (groupID : GroupID) (sender : FriendKey) (data : Bytes) :
    (polledText (onRecvGroupCustomMessage groupID sender data)).bind parseGroupCustomBinaryEvent =
      if groupID.chars = [] ∨ data = [] then none
      else some ⟨groupID.units, sender.units, utf8DecodeMalformed data⟩ := by
  rw [groupCustom_units, Option.bind_some, parseGroupCustomBinaryEvent_line]

theorem instanceId_read (line : Bytes) : InstanceIdRead line where
  carried _ h := parse_carried h
  missing h := by
    by_contra hne
    exact h _ (carried_of_parse hne)

def someFriend : FriendKey := ⟨List.replicate 32 0xAB, rfl⟩

def noGroup : GroupID := ⟨[], List.not_mem_nil, List.not_mem_nil, List.not_mem_nil⟩

def someGroup : GroupID := ⟨['g'], by decide, by decide, by decide⟩

def somePath : FilePath := ⟨['/', 'a'], by decide⟩

end Tim2Tox.EventLines
