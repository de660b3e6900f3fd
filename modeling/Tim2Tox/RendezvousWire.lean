import Tim2Tox.RendezvousTransport

set_option autoImplicit false

/-!
# The rendezvous lines from the native side to Dart

The parser gives back the event of every line that is built and nothing for any other line, so
the joined set is what the last lines said.
-/
namespace Tim2Tox.RendezvousTransport
open RendezvousCodec
open RendezvousGroups (kMaxPayloadBytes)

/-! ## Hexadecimal text -/

theorem hexByte_lower : ∀ n < 256, isLowerHex (hexByte (UInt8.ofNat n)) = true ∧
    bytesOf (hexByte (UInt8.ofNat n)) = [UInt8.ofNat n] ∧
    ':' ∉ hexByte (UInt8.ofNat n) := by
  decide +kernel

theorem hexByte_cases (b : UInt8) : ∃ hi lo, hexByte b = [hi, lo] ∧ isLowerHex [hi, lo] = true ∧
    UInt8.ofNat (16 * digitOf hi + digitOf lo) = b ∧ ':' ∉ [hi, lo] := by
  have hb := hexByte_lower b.toNat b.toNat_lt
  rw [UInt8.ofNat_toNat] at hb
  exact ⟨_, _, rfl, hb.1, (List.cons.inj hb.2.1).1, hb.2.2⟩

theorem hexText_length (bytes : List UInt8) : (bytes.flatMap hexByte).length = 2 * bytes.length := by
  induction bytes with
  | nil => rfl
  | cons b bytes ih =>
    rw [List.flatMap_cons, List.length_append, ih, List.length_cons]
    change 2 + _ = _
    omega

theorem hexText_lower (bytes : List UInt8) : isLowerHex (bytes.flatMap hexByte) = true := by
  induction bytes with
  | nil => rfl
  | cons b bytes ih =>
    obtain ⟨hi, lo, hbyte, hlower, -, -⟩ := hexByte_cases b
    rw [List.flatMap_cons, hbyte]
    unfold isLowerHex at *
    rw [List.all_append, hlower, ih]
    rfl

theorem bytesOf_hexText (bytes : List UInt8) : bytesOf (bytes.flatMap hexByte) = bytes := by
  induction bytes with
  | nil => rfl
  | cons b bytes ih =>
    obtain ⟨hi, lo, hbyte, -, hvalue, -⟩ := hexByte_cases b
    rw [List.flatMap_cons, hbyte]
    change UInt8.ofNat (16 * digitOf hi + digitOf lo) :: bytesOf (bytes.flatMap hexByte) = _
    rw [hvalue, ih]

theorem unhex_hexText (bytes : List UInt8) : unhex (bytes.flatMap hexByte) = some bytes := by
  unfold unhex
  rw [hexText_length, hexText_lower, bytesOf_hexText]
  simp

theorem colon_not_mem_hexText (bytes : List UInt8) : ':' ∉ bytes.flatMap hexByte := by
  intro hmem
  obtain ⟨b, -, hb⟩ := List.mem_flatMap.mp hmem
  obtain ⟨hi, lo, hbyte, -, -, hcolon⟩ := hexByte_cases b
  rw [hbyte] at hb
  exact hcolon hb

/-- 32 bytes give an identifier that the parser takes. -/
theorem isChatId_hexText (id : Vector UInt8 32) :
    isChatId (id.toList.flatMap hexByte) = true := by
  unfold isChatId
  rw [hexText_length, hexText_lower, Vector.length_toList]
  rfl

/-! ## Decimal numbers -/

theorem not_trimmed_of_isDigit {c : Char} (h : c.isDigit = true) : isTrimmed c = false := by
  have hrange : 48 ≤ c.toNat ∧ c.toNat ≤ 57 := by
    simpa [Char.isDigit, UInt32.le_iff_toNat_le] using h
  unfold isTrimmed
  simp only [List.mem_cons, List.not_mem_nil, or_false, Bool.or_eq_false_iff, Bool.and_eq_false_iff,
    decide_eq_false_iff_not]
  omega

theorem trim_digits {digits : List Char} (h : ∀ c ∈ digits, c.isDigit = true) :
    (digits.dropWhile isTrimmed).rdropWhile isTrimmed = digits := by
  have hstart : digits.dropWhile isTrimmed = digits := by
    cases digits with
    | nil => rfl
    | cons c digits =>
      rw [List.dropWhile_cons_of_neg]
      simp [not_trimmed_of_isDigit (h c List.mem_cons_self)]
  rw [hstart, List.rdropWhile_eq_self_iff]
  intro hne
  simp [not_trimmed_of_isDigit (h _ (List.getLast_mem hne))]

theorem tryParseUnsigned_digits {digits : List Char} (h : ∀ c ∈ digits, c.isDigit = true) :
    tryParseUnsigned false digits = tryParseDecimal false digits := by
  unfold tryParseUnsigned
  split
  · exact absurd (h 'x' (by simp)) (by decide)
  · exact absurd (h 'X' (by simp)) (by decide)
  · rfl

theorem tryParse_digits {digits : List Char} (h : ∀ c ∈ digits, c.isDigit = true) :
    tryParse digits = tryParseDecimal false digits := by
  unfold tryParse
  rw [trim_digits h]
  split
  · exact absurd (h '-' (by simp)) (by decide)
  · exact absurd (h '+' (by simp)) (by decide)
  · exact tryParseUnsigned_digits h

theorem tryParse_repr {count : ℕ} (h : count < 2 ^ 63) :
    tryParse (toString count).toList = some (count : ℤ) := by
  have hdigits : (toString count).toList = Nat.toDigits 10 count := Nat.toList_repr
  have hall : ∀ c ∈ Nat.toDigits 10 count, c.isDigit = true := fun c hc =>
    Nat.isDigit_of_mem_toDigits (by decide) (by decide) hc
  have hrange : (-2 ^ 63 : ℤ) ≤ count ∧ (count : ℤ) < 2 ^ 63 := by omega
  rw [hdigits, tryParse_digits hall]
  unfold tryParseDecimal
  simp only [Nat.ofDigitChars_ten_toDigits, Bool.false_eq_true, if_false]
  rw [if_pos ⟨Nat.toDigits_ne_nil, List.all_eq_true.mpr hall, hrange⟩]

theorem colon_not_mem_repr (count : ℕ) : ':' ∉ (toString count).toList := by
  have hdigits : (toString count).toList = Nat.toDigits 10 count := Nat.toList_repr
  intro hmem
  rw [hdigits] at hmem
  exact absurd (Nat.isDigit_of_mem_toDigits (by decide) (by decide) hmem) (by decide)

/-! ## Lines -/

theorem cutAtColon_append {kind : List Char} (h : ':' ∉ kind) (rest : List Char) :
    cutAtColon (kind ++ ':' :: rest) = some (kind, rest) := by
  have htake : (kind ++ ':' :: rest).takeWhile (· ≠ ':') = kind := by
    rw [List.takeWhile_append_of_pos]
    · simp
    · intro c hc
      have hne : c ≠ ':' := fun heq => h (heq ▸ hc)
      simpa using hne
  unfold cutAtColon
  dsimp only
  rw [htake]
  simp

theorem split_last {part : List Char} (h : ':' ∉ part) : part.splitOn ':' = [part] :=
  List.splitOn_eq_singleton h

theorem split_first {part : List Char} (h : ':' ∉ part) (rest : List Char) :
    (part ++ ':' :: rest).splitOn ':' = part :: rest.splitOn ':' :=
  List.splitOn_append_cons_self_of_not_mem h rest

theorem toList_hex (bytes : List UInt8) : (hex bytes).toList = bytes.flatMap hexByte :=
  String.toList_ofList

/-- A line that begins with the text of its kind and a colon. -/
theorem parseLine_of_kind {line : String} {kind rest : List Char}
    (hline : line.toList = kind ++ ':' :: rest)
    (hstart : ("rendezvous_".toList.isPrefixOf kind) = true) (hcolon : ':' ∉ kind) :
    parseLine line =
      if kind = "rendezvous_joined".toList then parseJoined (rest.splitOn ':')
      else if kind = "rendezvous_left".toList then parseLeft (rest.splitOn ':')
      else if kind = "rendezvous_peer".toList then parsePeer (rest.splitOn ':')
      else if kind = "rendezvous_peers_changed".toList then parsePeersChanged (rest.splitOn ':')
      else if kind = "rendezvous_full".toList then parseFull rest
      else if kind = "rendezvous_packet".toList then parsePacket (rest.splitOn ':')
      else none := by
  have hown : isRendezvousLine line = true := by
    unfold isRendezvousLine
    rw [hline]
    rw [List.isPrefixOf_iff_prefix] at hstart ⊢
    exact hstart.trans (List.prefix_append kind _)
  unfold parseLine
  rw [hown, hline, cutAtColon_append hcolon]
  rfl

theorem parseJoined_parts {chat : List Char} (h : isChatId chat = true) (founded : Bool) :
    parseJoined [chat, [if founded then '1' else '0']] =
      some (.joined (String.ofList chat) founded) := by
  unfold parseJoined
  dsimp only
  rw [h]
  cases founded <;> rfl

theorem parseLeft_parts {chat : List Char} (h : isChatId chat = true) {reason : Reason}
    (hunset : reason ≠ .unset) (hrefound : reason ≠ .refound) :
    parseLeft [chat, reason.text.toList] = some (.left (String.ofList chat) reason.text) := by
  have hknown : reason.text ∈ leftReasons := by
    cases reason <;> first | contradiction | decide
  unfold parseLeft
  dsimp only
  rw [h, String.ofList_toList]
  simp [hknown]

theorem parsePeer_parts {chat key : List Char} (h : isChatId chat = true) (hkey : isKey key = true)
    (entered : Bool) :
    parsePeer [chat, key, (if entered then "join" else "exit").toList] =
      some (.peer (String.ofList chat) (String.ofList key) entered) := by
  unfold parsePeer
  dsimp only
  rw [h, hkey]
  cases entered <;> rfl

theorem parsePeersChanged_parts {chat : List Char} (h : isChatId chat = true) {count : ℕ}
    (hcount : count < 2 ^ 63) :
    parsePeersChanged [chat, (toString count).toList] =
      some (.peersChanged (String.ofList chat) count) := by
  unfold parsePeersChanged
  dsimp only
  rw [h, tryParse_repr hcount]
  have hpositive : ¬(count : ℤ) < 0 := by omega
  simp [hpositive]

theorem parseFull_whole {chat : List Char} (h : isChatId chat = true) :
    parseFull chat = some (.full (String.ofList chat)) := by
  unfold parseFull
  rw [h]
  rfl

theorem parsePacket_parts {chat key : List Char} (h : isChatId chat = true) (hkey : isKey key = true)
    (isPrivate : Bool) {payload : List UInt8} (hpayload : payload.length ≤ maxPayloadBytes) :
    parsePacket [chat, key, [if isPrivate then 'p' else 'b'], payload.flatMap hexByte] =
      some (.packet (String.ofList chat) (String.ofList key) isPrivate payload) := by
  have hfits : ¬payload.length > maxPayloadBytes := by omega
  unfold parsePacket
  dsimp only
  rw [h, hkey, unhex_hexText]
  cases isPrivate <;> simp [hfits]

/-! ## What the parser makes of a line -/

section
variable {start : String} {kind : List Char}

theorem toList_one (hstart : start.toList = kind ++ [':']) (a : String) :
    (start ++ a).toList = kind ++ ':' :: a.toList := by
  rw [String.toList_append, hstart, List.append_assoc]
  rfl

theorem toList_two (hstart : start.toList = kind ++ [':']) (a b : String) :
    (start ++ a ++ ":" ++ b).toList = kind ++ ':' :: (a.toList ++ ':' :: b.toList) := by
  rw [String.toList_append, String.toList_append, toList_one hstart, List.append_assoc,
    List.append_assoc]
  rfl

theorem toList_three (hstart : start.toList = kind ++ [':']) (a b c : String) :
    (start ++ a ++ ":" ++ b ++ ":" ++ c).toList =
      kind ++ ':' :: (a.toList ++ ':' :: (b.toList ++ ':' :: c.toList)) := by
  rw [String.toList_append, String.toList_append, toList_two hstart]
  simp only [List.append_assoc, List.cons_append]
  rfl

theorem toList_four (hstart : start.toList = kind ++ [':']) (a b c d : String) :
    (start ++ a ++ ":" ++ b ++ ":" ++ c ++ ":" ++ d).toList =
      kind ++ ':' :: (a.toList ++ ':' :: (b.toList ++ ':' :: (c.toList ++ ':' :: d.toList))) := by
  rw [String.toList_append, String.toList_append, toList_three hstart]
  simp only [List.append_assoc, List.cons_append]
  rfl

end

theorem parse_joinedLine (chatId : ChatId) (founded : Bool) :
    parseLine (Line.joined (hex chatId.toList) founded).text =
      some (.joined (hex chatId.toList) founded) := by
  have hflag : (if founded then "1" else "0").toList = [if founded then '1' else '0'] := by
    cases founded <;> rfl
  have hcolon : ':' ∉ [if founded then '1' else '0'] := by cases founded <;> decide
  have hline : (Line.joined (hex chatId.toList) founded).text.toList =
      "rendezvous_joined".toList ++ ':' ::
        (chatId.toList.flatMap hexByte ++ ':' :: [if founded then '1' else '0']) := by
    rw [← hflag, ← toList_hex]
    exact toList_two (by decide) _ _
  rw [parseLine_of_kind hline (by decide) (by decide), if_pos rfl,
    split_first (colon_not_mem_hexText _), split_last hcolon,
    parseJoined_parts (isChatId_hexText chatId)]
  rfl

theorem parse_leftLine (chatId : ChatId) {reason : Reason} (hunset : reason ≠ .unset)
    (hrefound : reason ≠ .refound) :
    parseLine (Line.left (hex chatId.toList) reason).text =
      some (.left (hex chatId.toList) reason.text) := by
  have hcolon : ':' ∉ reason.text.toList := by cases reason <;> decide
  have hline : (Line.left (hex chatId.toList) reason).text.toList =
      "rendezvous_left".toList ++ ':' ::
        (chatId.toList.flatMap hexByte ++ ':' :: reason.text.toList) := by
    rw [← toList_hex]
    exact toList_two (by decide) _ _
  rw [parseLine_of_kind hline (by decide) (by decide), if_neg (by decide), if_pos rfl,
    split_first (colon_not_mem_hexText _), split_last hcolon,
    parseLeft_parts (isChatId_hexText chatId) hunset hrefound]
  rfl

theorem parse_peerLine (chatId : ChatId) (peerPk : PeerKey) (entered : Bool) :
    parseLine (Line.peer (hex chatId.toList) (hex peerPk.toList) entered).text =
      some (.peer (hex chatId.toList) (hex peerPk.toList) entered) := by
  have hcolon : ':' ∉ (if entered then "join" else "exit").toList := by
    cases entered <;> decide
  have hline : (Line.peer (hex chatId.toList) (hex peerPk.toList) entered).text.toList =
      "rendezvous_peer".toList ++ ':' :: (chatId.toList.flatMap hexByte ++ ':' ::
        (peerPk.toList.flatMap hexByte ++ ':' :: (if entered then "join" else "exit").toList)) := by
    rw [← toList_hex, ← toList_hex]
    exact toList_three (by decide) _ _ _
  rw [parseLine_of_kind hline (by decide) (by decide), if_neg (by decide), if_neg (by decide),
    if_pos rfl, split_first (colon_not_mem_hexText _), split_first (colon_not_mem_hexText _),
    split_last hcolon, parsePeer_parts (isChatId_hexText chatId) (isChatId_hexText peerPk)]
  rfl

theorem parse_peersChangedLine (chatId : ChatId) {count : ℕ} (hcount : count < 2 ^ 63) :
    parseLine (Line.peersChanged (hex chatId.toList) count).text =
      some (.peersChanged (hex chatId.toList) count) := by
  have hline : (Line.peersChanged (hex chatId.toList) count).text.toList =
      "rendezvous_peers_changed".toList ++ ':' ::
        (chatId.toList.flatMap hexByte ++ ':' :: (toString count).toList) := by
    rw [← toList_hex]
    exact toList_two (by decide) _ _
  rw [parseLine_of_kind hline (by decide) (by decide), if_neg (by decide), if_neg (by decide),
    if_neg (by decide), if_pos rfl, split_first (colon_not_mem_hexText _),
    split_last (colon_not_mem_repr count), parsePeersChanged_parts (isChatId_hexText chatId) hcount]
  rfl

theorem parse_fullLine (chatId : ChatId) :
    parseLine (Line.full (hex chatId.toList)).text = some (.full (hex chatId.toList)) := by
  have hline : (Line.full (hex chatId.toList)).text.toList =
      "rendezvous_full".toList ++ ':' :: chatId.toList.flatMap hexByte := by
    rw [← toList_hex]
    exact toList_one (by decide) _
  rw [parseLine_of_kind hline (by decide) (by decide), if_neg (by decide), if_neg (by decide),
    if_neg (by decide), if_neg (by decide), if_pos rfl, parseFull_whole (isChatId_hexText chatId)]
  rfl

theorem parse_packetLine (chatId : ChatId) (peerPk : PeerKey) (isPrivate : Bool)
    {payload : List UInt8} (hpayload : payload.length ≤ maxPayloadBytes) :
    parseLine (Line.packet (hex chatId.toList) (hex peerPk.toList) isPrivate payload).text =
      some (.packet (hex chatId.toList) (hex peerPk.toList) isPrivate payload) := by
  have hway : (if isPrivate then "p" else "b").toList = [if isPrivate then 'p' else 'b'] := by
    cases isPrivate <;> rfl
  have hcolon : ':' ∉ [if isPrivate then 'p' else 'b'] := by cases isPrivate <;> decide
  have hline : (Line.packet (hex chatId.toList) (hex peerPk.toList) isPrivate payload).text.toList =
      "rendezvous_packet".toList ++ ':' :: (chatId.toList.flatMap hexByte ++ ':' ::
        (peerPk.toList.flatMap hexByte ++ ':' :: ([if isPrivate then 'p' else 'b'] ++ ':' ::
          payload.flatMap hexByte))) := by
    rw [← hway, ← toList_hex, ← toList_hex, ← toList_hex]
    exact toList_four (by decide) _ _ _ _
  rw [parseLine_of_kind hline (by decide) (by decide), if_neg (by decide), if_neg (by decide),
    if_neg (by decide), if_neg (by decide), if_neg (by decide), if_pos rfl,
    split_first (colon_not_mem_hexText _), split_first (colon_not_mem_hexText _),
    split_first hcolon, split_last (colon_not_mem_hexText _),
    parsePacket_parts (isChatId_hexText chatId) (isChatId_hexText peerPk) isPrivate hpayload]
  rfl

theorem not_startsWith {start : String} {c : Char} {more : List Char} (hstart : start.toList = c :: more)
    (hc : c ≠ 'r') (rest : String) : isRendezvousLine (start ++ rest) = false := by
  have hown : "rendezvous_".toList = 'r' :: "endezvous_".toList := by decide
  have hne : ('r' == c) = false := by simpa using hc.symm
  unfold isRendezvousLine
  rw [String.toList_append, hstart, hown, List.cons_append, List.isPrefixOf_cons_cons, hne,
    Bool.false_and]

theorem other_not_rendezvous (kind : LineKind) (rest : String) :
    isRendezvousLine (kind.text ++ rest) = false := by
  cases kind <;> exact not_startsWith rfl (by decide) rest

/-- Of every native line the parser makes the event with the same fields, or none at all. -/
theorem parseLine_text (line : NativeLine) : parseLine line.text = line.event := by
  cases line with
  | built call =>
    cases call with
    | joinedLine chatId founded => exact parse_joinedLine chatId founded
    | leftLine chatId reason => exact parse_leftLine chatId reason.2.1 reason.2.2
    | peerLine chatId peerPk entered => exact parse_peerLine chatId peerPk entered
    | peersChangedLine chatId count =>
      have hcount : count.1 < 2 ^ 63 := Nat.lt_of_le_of_lt count.2 (by decide)
      exact parse_peersChangedLine chatId hcount
    | fullLine chatId => exact parse_fullLine chatId
    | packetLine chatId peerPk isPrivate payload =>
      exact parse_packetLine chatId peerPk isPrivate payload.2
  | other kind rest =>
    have hother : isRendezvousLine (NativeLine.other kind rest).text = false :=
      other_not_rendezvous kind rest
    unfold parseLine
    rw [hother]
    rfl

/-! ## The joined set -/

/-- What a line says of a cell: that it was joined, that it was left, or nothing. -/
def NativeLine.word (chatIdHex : String) (line : NativeLine) : Option Bool :=
  match line with
  | .built (.joinedLine chatId _) => if hex chatId.toList = chatIdHex then some true else none
  | .built (.leftLine chatId _) => if hex chatId.toList = chatIdHex then some false else none
  | _ => none

/-- The last word to an instance about a cell. -/
def lastWord (feed : List (ℤ × NativeLine)) (instanceId : ℤ) (chatIdHex : String) : Option Bool :=
  (feed.filterMap fun entry =>
    if entry.1 = instanceId then entry.2.word chatIdHex else none).getLast?

/-- The transport after the lines, each with the instance it is stamped with. -/
def Transport.feed (t : Transport) (lines : List (ℤ × NativeLine)) : Transport :=
  lines.foldl (fun t entry => (t.handleLine entry.2.text entry.1).2) t

theorem handleLine_text (t : Transport) (line : NativeLine) (instanceId : ℤ) :
    t.handleLine line.text instanceId =
      match line.event with
      | some event => (true, ⟨Transport.record t.joined instanceId event,
          t.events ++ [(instanceId, event)]⟩)
      | none => (false, t) := by
  have hparsed := parseLine_text line
  cases line with
  | built call =>
    have hown : isRendezvousLine (NativeLine.built call).text = true := by
      by_contra hnot
      unfold parseLine at hparsed
      rw [Bool.not_eq_true] at hnot
      rw [hnot] at hparsed
      exact absurd hparsed (by simp [NativeLine.event])
    unfold Transport.handleLine
    rw [hparsed, hown]
    rfl
  | other kind rest =>
    have hother : isRendezvousLine (NativeLine.other kind rest).text = false :=
      other_not_rendezvous kind rest
    unfold Transport.handleLine
    rw [hother]
    rfl

/-- What an event says of a cell. -/
def RendezvousEvent.word (chatIdHex : String) : RendezvousEvent → Option Bool
  | .joined chat _ => if chat = chatIdHex then some true else none
  | .left chat _ => if chat = chatIdHex then some false else none
  | _ => none

theorem word_eq (line : NativeLine) (chatIdHex : String) :
    line.word chatIdHex = line.event.bind fun event => event.word chatIdHex := by
  cases line with
  | built call => cases call <;> rfl
  | other kind rest => rfl

/-- The cells of an instance after an event that is stamped with it. -/
def RendezvousEvent.applied (cells : Finset String) : RendezvousEvent → Finset String
  | .joined chat _ => insert chat cells
  | .left chat _ => cells.erase chat
  | _ => cells

theorem mem_applied (event : RendezvousEvent) (cells : Finset String) (chatIdHex : String) :
    chatIdHex ∈ event.applied cells ↔
      (event.word chatIdHex).getD (decide (chatIdHex ∈ cells)) = true := by
  unfold RendezvousEvent.applied RendezvousEvent.word
  cases event with
  | joined chat founded =>
    by_cases heq : chat = chatIdHex
    · simp [heq]
    · simp [heq, Ne.symm heq]
  | left chat reason =>
    by_cases heq : chat = chatIdHex
    · simp [heq]
    · simp [heq, Ne.symm heq]
  | peer chat key entered => simp
  | peersChanged chat count => simp
  | full chat => simp
  | packet chat key isPrivate payload => simp

theorem cells_insert (joined : AList fun _ : ℤ => Finset String) (stamped instanceId : ℤ)
    (cells : Finset String) :
    ((joined.insert stamped cells).lookup instanceId).getD ∅ =
      if stamped = instanceId then cells else (joined.lookup instanceId).getD ∅ := by
  by_cases heq : stamped = instanceId
  · rw [if_pos heq, ← heq, AList.lookup_insert]
    rfl
  · rw [if_neg heq, AList.lookup_insert_ne (Ne.symm heq)]

theorem cells_erase (joined : AList fun _ : ℤ => Finset String) (stamped instanceId : ℤ) :
    ((joined.erase stamped).lookup instanceId).getD ∅ =
      if stamped = instanceId then ∅ else (joined.lookup instanceId).getD ∅ := by
  by_cases heq : stamped = instanceId
  · rw [if_pos heq, ← heq, AList.lookup_erase]
    rfl
  · rw [if_neg heq, AList.lookup_erase_ne (Ne.symm heq)]

theorem cells_record (joined : AList fun _ : ℤ => Finset String) (stamped instanceId : ℤ)
    (event : RendezvousEvent) :
    ((Transport.record joined stamped event).lookup instanceId).getD ∅ =
      if stamped = instanceId then event.applied ((joined.lookup instanceId).getD ∅)
      else (joined.lookup instanceId).getD ∅ := by
  have hsame : ∀ cells : Finset String, (if stamped = instanceId then cells else cells) = cells :=
    fun cells => ite_self cells
  cases event with
  | joined chat founded =>
    unfold Transport.record
    dsimp only
    rw [cells_insert]
    by_cases heq : stamped = instanceId
    · rw [if_pos heq, if_pos heq, heq]
      rfl
    · rw [if_neg heq, if_neg heq]
  | left chat reason =>
    unfold Transport.record
    dsimp only
    cases hcells : joined.lookup stamped with
    | none =>
      by_cases heq : stamped = instanceId
      · rw [if_pos heq, ← heq, hcells]
        rfl
      · rw [if_neg heq]
    | some cells =>
      dsimp only
      by_cases heq : stamped = instanceId
      · rw [if_pos heq, ← heq, hcells]
        change _ = cells.erase chat
        split
        next hempty =>
          rw [cells_erase, if_pos rfl, hempty]
        next => rw [cells_insert, if_pos rfl]
      · rw [if_neg heq]
        split
        next => rw [cells_erase, if_neg heq]
        next => rw [cells_insert, if_neg heq]
  | peer chat key entered => exact (hsame _).symm
  | peersChanged chat count => exact (hsame _).symm
  | full chat => exact (hsame _).symm
  | packet chat key isPrivate payload => exact (hsame _).symm

/-- One line makes its word the last one about the cell. -/
theorem joined_handleLine (t : Transport) (line : NativeLine) (stamped instanceId : ℤ)
    (chatIdHex : String) :
    chatIdHex ∈ (t.handleLine line.text stamped).2.joinedChatIdsOf instanceId ↔
      (if stamped = instanceId then line.word chatIdHex else none).getD
        (decide (chatIdHex ∈ t.joinedChatIdsOf instanceId)) = true := by
  rw [handleLine_text, word_eq]
  cases line.event with
  | none => simp
  | some event =>
    change chatIdHex ∈ ((Transport.record t.joined stamped event).lookup instanceId).getD ∅ ↔ _
    rw [cells_record]
    by_cases heq : stamped = instanceId
    · rw [if_pos heq, if_pos heq]
      exact mem_applied event _ chatIdHex
    · rw [if_neg heq, if_neg heq]
      exact decide_eq_true_iff.symm

theorem lastWord_append (feed : List (ℤ × NativeLine)) (stamped : ℤ) (line : NativeLine)
    (instanceId : ℤ) (chatIdHex : String) :
    lastWord (feed ++ [(stamped, line)]) instanceId chatIdHex =
      (if stamped = instanceId then line.word chatIdHex else none).or
        (lastWord feed instanceId chatIdHex) := by
  unfold lastWord
  rw [List.filterMap_append, List.getLast?_append]
  cases hword : (if stamped = instanceId then line.word chatIdHex else none) with
  | none => simp [hword]
  | some word => simp [hword]

theorem joined_feed (feed : List (ℤ × NativeLine)) (instanceId : ℤ) (chatIdHex : String) :
    chatIdHex ∈ (Transport.feed {} feed).joinedChatIdsOf instanceId ↔
      lastWord feed instanceId chatIdHex = some true := by
  induction feed using List.reverseRecOn with
  | nil => simp [Transport.feed, Transport.joinedChatIdsOf, lastWord]
  | append_singleton feed entry ih =>
    have hstep : Transport.feed {} (feed ++ [entry]) =
        ((Transport.feed {} feed).handleLine entry.2.text entry.1).2 := by
      unfold Transport.feed
      rw [List.foldl_append]
      rfl
    rw [hstep, joined_handleLine, lastWord_append]
    cases (if entry.1 = instanceId then entry.2.word chatIdHex else none) with
    | some word => simp
    | none => simpa using ih

theorem mem_joinedChatIds (t : Transport) (chatIdHex : String) :
    chatIdHex ∈ t.joinedChatIds ↔ ∃ instanceId, chatIdHex ∈ t.joinedChatIdsOf instanceId := by
  have hfold : ∀ entries : List (Sigma fun _ : ℤ => Finset String),
      chatIdHex ∈ entries.foldr (fun entry ids => entry.2 ∪ ids) ∅ ↔
        ∃ entry ∈ entries, chatIdHex ∈ entry.2 := by
    intro entries
    induction entries with
    | nil => simp
    | cons entry entries ih => rw [List.foldr_cons, Finset.mem_union, ih, List.exists_mem_cons_iff]
  unfold Transport.joinedChatIds
  rw [hfold]
  constructor
  · intro h
    obtain ⟨entry, hentry, hchat⟩ := h
    have hlookup : t.joined.lookup entry.1 = some entry.2 :=
      AList.mem_lookup_iff.mpr hentry
    refine ⟨entry.1, ?_⟩
    unfold Transport.joinedChatIdsOf
    rw [hlookup]
    exact hchat
  · intro h
    obtain ⟨instanceId, hchat⟩ := h
    unfold Transport.joinedChatIdsOf at hchat
    cases hlookup : t.joined.lookup instanceId with
    | none =>
      rw [hlookup] at hchat
      exact absurd hchat (Finset.notMem_empty _)
    | some cells =>
      rw [hlookup] at hchat
      exact ⟨⟨instanceId, cells⟩, AList.mem_lookup_iff.mp hlookup, hchat⟩

/-- Every line that is built comes back as the event of its kind with its own fields, and the bytes of
    its identifiers with it; every other line is left alone. So an instance is in the cells that were
    last said to be joined. -/
theorem lines_agree :
    (∀ line : NativeLine, parseLine line.text = line.event) ∧
      (∀ bytes : List UInt8, unhex (hex bytes).toList = some bytes) ∧
      (∀ (t : Transport) (kind : LineKind) (rest : String) (instanceId : ℤ),
        t.handleLine (NativeLine.other kind rest).text instanceId = (false, t)) ∧
      (∀ (feed : List (ℤ × NativeLine)) (instanceId : ℤ) (chatIdHex : String),
        chatIdHex ∈ (Transport.feed {} feed).joinedChatIdsOf instanceId ↔
          lastWord feed instanceId chatIdHex = some true) ∧
      ∀ (feed : List (ℤ × NativeLine)) (chatIdHex : String),
        chatIdHex ∈ (Transport.feed {} feed).joinedChatIds ↔
          ∃ instanceId, lastWord feed instanceId chatIdHex = some true := by
  refine ⟨parseLine_text, ?_, ?_, joined_feed, ?_⟩
  · intro bytes
    rw [toList_hex]
    exact unhex_hexText bytes
  · intro t kind rest instanceId
    exact handleLine_text t (.other kind rest) instanceId
  · intro feed chatIdHex
    rw [mem_joinedChatIds]
    exact exists_congr fun instanceId => joined_feed feed instanceId chatIdHex

end Tim2Tox.RendezvousTransport
