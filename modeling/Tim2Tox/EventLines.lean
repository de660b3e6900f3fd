import Mathlib.Data.List.TakeWhile
import Tim2Tox.DartText
import Tim2Tox.HexDecoders
import Tim2Tox.NumberTexts
import Tim2Tox.Utf8Decoder

set_option autoImplicit false

/-!
# Event lines

The native listeners write every event as one line of bytes, and the service polls the line, decodes
it and takes it apart again.
-/
namespace Tim2Tox.EventLines
open DartText (Units)

abbrev Bytes := List UInt8

def ascii (s : String) : Bytes := s.toList.map fun c => UInt8.ofNat c.toNat

/-! ## What a line is made of -/

/-- The public key of a friend. -/
structure FriendKey where
  bytes : Bytes
  size : bytes.length = HexDecoders.toxPublicKeySize

def FriendKey.userID (key : FriendKey) : Bytes := HexDecoders.toxBytesToHex key.bytes

/-- A group id as `CString` gives it, without the separators of a line. -/
structure GroupID where
  chars : List Char
  noZero : '\x00' ∉ chars
  plain : ':' ∉ chars ∧ '|' ∉ chars

def GroupID.text (groupID : GroupID) : Bytes := Utf8.encode groupID.chars

/-- The path of a file, without a zero byte. -/
structure FilePath where
  chars : List Char
  noZero : '\x00' ∉ chars

def FilePath.text (path : FilePath) : Bytes := Utf8.encode path.chars

/-! ## tim2tox_ffi.cpp -/

def kHexDigits : Bytes := ascii "0123456789abcdef"

def hexByte (b : UInt8) : Bytes :=
  [kHexDigits.getD (b.toNat >>> 4) 0, kHexDigits.getD (b.toNat &&& 0x0F) 0]

def lowerHex (data : Bytes) : Bytes := data.flatMap hexByte

def hexEncodeWithRoute (route : UInt8) (data : Bytes) : Bytes := hexByte route ++ data.flatMap hexByte

/-- Without an override the route is 3. -/
def onRecvC2CCustomMessage (routeOverride : Option UInt8) (sender : FriendKey) (customData : Bytes) :
    Bytes :=
  ascii "c2cbin:" ++ sender.userID ++ ascii ":" ++
    hexEncodeWithRoute (routeOverride.getD 3) customData

/-- `GetReceiverGroupMessageIdOverride`: minus one where a message has no id. -/
def groupMessageIdOverride : Option UInt32 → ℤ
  | some messageId => messageId.toNat
  | none => -1

def groupHeader (groupID : GroupID) (sender : FriendKey) (pseudoId : ℤ) : Bytes :=
  groupID.text ++ ascii "|" ++ sender.userID ++
    if 0 ≤ pseudoId then ascii "|m" ++ NumberTexts.digits (pseudoId.toNat % 2 ^ 32) else []

def groupTextKind (action : Bool) : String := if action then "gaction:" else "gtext:"

def onRecvGroupTextMessage (action : Bool) (messageId : Option UInt32) (groupID : GroupID)
    (sender : FriendKey) (text : Bytes) : Bytes :=
  ascii (groupTextKind action) ++ groupHeader groupID sender (groupMessageIdOverride messageId) ++
    ascii ":" ++ HexDecoders.cString text

def onRecvGroupCustomMessage (groupID : GroupID) (sender : FriendKey) (customData : Bytes) : Bytes :=
  ascii "gcustombin:" ++ groupID.text ++ ascii "|" ++ sender.userID ++ ascii ":" ++ lowerHex customData

/-- What `snprintf` leaves in a buffer. -/
def snprintf (size : ℕ) (text : Bytes) : Bytes := text.take (size - 1)

def fileDoneLine (instanceId : Int64) (sender : FriendKey) (kind : UInt32) (full : FilePath) : Bytes :=
  snprintf 128 (ascii "file_done:" ++ NumberTexts.decimal instanceId.toInt ++ ascii ":" ++
    sender.userID ++ ascii ":" ++ NumberTexts.digits kind.toNat ++ ascii ":") ++ full.text

def progressRecvLine (instanceId : Int64) (sender : FriendKey) (received size : UInt64)
    (full : FilePath) : Bytes :=
  snprintf 160 (ascii "progress_recv:" ++ NumberTexts.decimal instanceId.toInt ++ ascii ":" ++
    sender.userID ++ ascii ":" ++ NumberTexts.digits received.toNat ++ ascii ":" ++
    NumberTexts.digits size.toNat ++ ascii ":") ++ full.text

/-! ## event_line_parser.cpp -/

def kRoutedPrefixes : List Bytes :=
  ["progress_recv:", "file_done:", "file_request:", "avatar_request:", "file_recv_failed:"].map ascii

/-- What stands between a routed prefix and the next colon. -/
def idText (line : Bytes) : Option Bytes :=
  match kRoutedPrefixes.find? (·.isPrefixOf line) with
  | none => none
  | some routed =>
    let rest := line.drop routed.length
    if 58 ∈ rest then some (rest.takeWhile (· ≠ 58)) else none

/-- `std::from_chars` for `int64_t`: the number, if one in range begins the text, and what is left. -/
def fromChars (text : Bytes) : Option ℤ × Bytes :=
  let negative := text.head? = some 45
  let body := if negative then text.drop 1 else text
  let digits := body.takeWhile NumberTexts.isDigit
  if digits = [] then (none, text)
  else
    let value := NumberTexts.signed negative (NumberTexts.readDigits digits)
    (if -2 ^ 63 ≤ value ∧ value < 2 ^ 63 then some value else none, body.drop digits.length)

def parseInstanceIdFromLine (line : Bytes) : ℤ :=
  match idText line with
  | none => 0
  | some text =>
    if text.head?.any NumberTexts.isDigit then
      match fromChars text with
      | (some instanceId, []) => if instanceId ≤ 0 then 0 else instanceId
      | _ => 0
    else 0

/-! ## What is polled -/

/-- A leading byte order mark is not part of what `utf8.decode` reads. -/
def withoutMark (bytes : Bytes) : Bytes :=
  if bytes.take 3 = [0xEF, 0xBB, 0xBF] then bytes.drop 3 else bytes

def utf8Decode (bytes : Bytes) : Option Units :=
  (Utf8.decode (withoutMark bytes)).map Utf16.encode

/-- With `allowMalformed`. -/
def utf8DecodeMalformed (bytes : Bytes) : Units := Utf16.encode (Utf8.decodeLossy (withoutMark bytes))

def recoverablePrefixes : List Bytes :=
  ["conn:", "typing:", "c2c:", "c2caction:", "gtext:", "gaction:", "gcustombin:", "avatar_request:",
    "file_", "msg:", "nickname_", "status_", "progress_", "gcustom:"].map ascii

/-- The characters that are looked at where a line is not UTF-8. -/
def firstChars (line : Bytes) : Bytes :=
  (line.take 20).filter fun b => (32 ≤ b && b ≤ 126) || b = 9 || b = 10 || b = 13

/-- The text of a polled line, if it is not dropped. -/
def polledText (line : Bytes) : Option Units :=
  match utf8Decode (HexDecoders.cString line) with
  | some s => some s
  | none =>
    if recoverablePrefixes.any (·.isPrefixOf (firstChars line)) then some (utf8DecodeMalformed line)
    else none

/-! ## ffi_chat_service.dart -/

def startsWith (s : Units) (pattern : String) : Bool := (DartText.ofString pattern).isPrefixOf s

def indexOf (s : Units) (u start : ℕ) : Option ℕ :=
  if u ∈ s.drop start then some (start + ((s.drop start).takeWhile (· ≠ u)).length) else none

def substring (s : Units) (first last : ℕ) : Units := (s.take last).drop first

/-- `int.tryParse` with 64 bits: a hexadecimal number without a minus sign wraps around. -/
def tryParse (s : Units) : Option ℤ :=
  match DartText.tryParse s with
  | none => none
  | some n =>
    if -2 ^ 63 ≤ n ∧ n < 2 ^ 63 then some n
    else if 0 ≤ n ∧ n < 2 ^ 64 ∧ (120 ∈ s ∨ 88 ∈ s) then some (n - 2 ^ 64)
    else none

def isHex (s : Units) : Bool := s.all fun u => (DartText.hexValue u).isSome

/-- `_toxPublicKeyPattern` -/
def toxPublicKeyPattern (s : Units) : Bool := s.length = 64 && isHex s

/-- `_hexPayloadPattern` -/
def hexPayloadPattern (s : Units) : Bool := s ≠ [] && isHex s

/-- `int.parse` of every two digits; none where it throws. -/
def payloadBytes : Units → Option Bytes
  | [] => some []
  | [_] => none
  | a :: b :: rest =>
    match DartText.hexValue a, DartText.hexValue b, payloadBytes rest with
    | some high, some low, some bytes => some (UInt8.ofNat (high * 16 + low) :: bytes)
    | _, _, _ => none

structure FileDoneEvent where
  instanceId : ℤ
  uid : Units
  fileKind : ℤ
  path : Units
  deriving DecidableEq

structure ProgressRecvEvent where
  instanceId : ℤ
  uid : Units
  received : ℤ
  total : ℤ
  path : Units
  deriving DecidableEq

structure C2cBinaryEvent where
  sender : Units
  route : ℕ
  payload : Units
  deriving DecidableEq

structure GroupCustomBinaryEvent where
  groupId : Units
  sender : Units
  payload : Units
  deriving DecidableEq

structure GroupHeader where
  groupId : Units
  sender : Units
  pseudoMsgId : Option ℤ
  deriving DecidableEq

/-- The instance id, or 0 where the line has none, and the index of the first field behind it. -/
def routing (parts : List Units) (least : ℕ) : ℤ × ℕ :=
  match tryParse (parts.getD 1 []) with
  | some instanceId => if least ≤ parts.length then (instanceId, 2) else (0, 1)
  | none => (0, 1)

def parseFileDoneEvent (event : Units) : Option FileDoneEvent :=
  if startsWith event "file_done:" then
    let parts := event.splitOn 58
    let (instanceId, uidIdx) := routing parts 5
    if parts.length < uidIdx + 3 then none
    else some
      { instanceId
        uid := parts.getD uidIdx []
        fileKind := (tryParse (parts.getD (uidIdx + 1) [])).getD 0
        path := [58].intercalate (parts.drop (uidIdx + 2)) }
  else none

def parseProgressRecvEvent (event : Units) : Option ProgressRecvEvent :=
  if startsWith event "progress_recv:" then
    let parts := event.splitOn 58
    let (instanceId, uidIdx) := routing parts 6
    if parts.length < uidIdx + 4 then none
    else some
      { instanceId
        uid := parts.getD uidIdx []
        received := (tryParse (parts.getD (uidIdx + 1) [])).getD 0
        total := (tryParse (parts.getD (uidIdx + 2) [])).getD 0
        path := [58].intercalate (parts.drop (uidIdx + 3)) }
  else none

/-- The bytes that a hexadecimal payload spells, if it does. -/
def hexPayloadBytes (hexPayload : Units) : Option Bytes :=
  if hexPayload = [] || hexPayload.length % 2 = 1 then none
  else if hexPayloadPattern hexPayload then payloadBytes hexPayload
  else none

def parseC2cBinaryEvent (event : Units) : Option C2cBinaryEvent :=
  if startsWith event "c2cbin:" then
    match indexOf event 58 7 with
    | none => none
    | some payloadSeparator =>
      let sender := substring event 7 payloadSeparator
      if toxPublicKeyPattern sender then
        match hexPayloadBytes (event.drop (payloadSeparator + 1)) with
        | some (route :: payload) =>
          if 4 < route then none
          else (utf8Decode payload).map fun payload => { sender, route := route.toNat, payload }
        | _ => none
      else none
  else none

def parseGroupCustomBinaryEvent (event : Units) : Option GroupCustomBinaryEvent :=
  if startsWith event "gcustombin:" then
    match indexOf event 58 11 with
    | none => none
    | some payloadSeparator =>
      let header := substring event 11 payloadSeparator
      match indexOf header 124 0 with
      | none => none
      | some groupSeparator =>
        if groupSeparator = 0 || groupSeparator + 1 = header.length then none
        else
          let groupId := header.take groupSeparator
          let sender := header.drop (groupSeparator + 1)
          if toxPublicKeyPattern sender then
            (hexPayloadBytes (event.drop (payloadSeparator + 1))).map fun payload =>
              { groupId, sender, payload := utf8DecodeMalformed payload }
          else none
  else none

def parseGroupHeader (header : Units) : Option GroupHeader :=
  match indexOf header 124 0 with
  | none => none
  | some firstSeparator =>
    if firstSeparator = 0 || firstSeparator + 1 = header.length then none
    else
      let groupId := header.take firstSeparator
      let rest := header.drop (firstSeparator + 1)
      match indexOf rest 124 0 with
      | none => some { groupId, sender := rest, pseudoMsgId := none }
      | some secondSeparator =>
        let sender := rest.take secondSeparator
        if sender = [] then none
        else
          let tail := rest.drop (secondSeparator + 1)
          if startsWith tail "m" then
            some { groupId, sender, pseudoMsgId := (tryParse (tail.drop 1)).filter (0 ≤ ·) }
          else some { groupId, sender, pseudoMsgId := none }

/-- What stands between the kind of a `gtext` or `gaction` line and the next colon, if anything. -/
def eventHeader (kind : String) (event : Units) : Option Units :=
  if startsWith event kind then
    match indexOf event 58 kind.length with
    | some headerEnd =>
      if kind.length < headerEnd then some (substring event kind.length headerEnd) else none
    | none => none
  else none

/-! ## Bytes of ASCII as characters and units -/

def widen (bytes : Bytes) : Units := bytes.map UInt8.toNat

/-- Bytes of ASCII that separate no fields. -/
def Plain (bytes : Bytes) : Prop := ∀ b ∈ bytes, (0 < b.toNat ∧ b.toNat < 128) ∧ b ≠ 58 ∧ b ≠ 124

def Ascii (bytes : Bytes) : Prop := ∀ b ∈ bytes, 0 < b.toNat ∧ b.toNat < 128

instance (bytes : Bytes) : Decidable (Plain bytes) := List.decidableBAll _ bytes

instance (bytes : Bytes) : Decidable (Ascii bytes) := List.decidableBAll _ bytes

theorem Plain.ascii {bytes : Bytes} (h : Plain bytes) : Ascii bytes := fun b hb => (h b hb).1

theorem Ascii.append {a b : Bytes} (ha : Ascii a) (hb : Ascii b) : Ascii (a ++ b) := by
  intro x hx
  cases List.mem_append.mp hx with
  | inl hx => exact ha x hx
  | inr hx => exact hb x hx

theorem widen_append (a b : Bytes) : widen (a ++ b) = widen a ++ widen b := List.map_append

theorem widen_length (bytes : Bytes) : (widen bytes).length = bytes.length := List.length_map _

theorem Plain.apart {bytes : Bytes} (h : Plain bytes) : 58 ∉ widen bytes ∧ 124 ∉ widen bytes := by
  constructor
  · intro hmem
    obtain ⟨b, hb, hval⟩ := List.mem_map.mp hmem
    exact (h b hb).2.1 (UInt8.toNat_inj.mp hval)
  · intro hmem
    obtain ⟨b, hb, hval⟩ := List.mem_map.mp hmem
    exact (h b hb).2.2 (UInt8.toNat_inj.mp hval)

/-- The characters of bytes of ASCII. -/
def asciiChars (bytes : Bytes) : List Char := bytes.map fun b => Char.ofNat b.toNat

theorem asciiChar (b : UInt8) (h : b.toNat < 128) :
    String.utf8EncodeChar (Char.ofNat b.toNat) = [b] ∧ Utf16.units (Char.ofNat b.toNat) = [b.toNat] := by
  have hall := HexDecoders.of_all_bytes (p := fun b => !decide (b.toNat < 128) ||
    (decide (String.utf8EncodeChar (Char.ofNat b.toNat) = [b]) &&
      decide (Utf16.units (Char.ofNat b.toNat) = [b.toNat]))) (by decide +kernel) b
  rw [decide_eq_true h, Bool.not_true, Bool.false_or, Bool.and_eq_true, decide_eq_true_eq,
    decide_eq_true_eq] at hall
  exact hall

theorem encode_asciiChars {bytes : Bytes} (h : Ascii bytes) : Utf8.encode (asciiChars bytes) = bytes := by
  induction bytes with
  | nil => rfl
  | cons b bytes ih =>
    have hb := asciiChar b (h b List.mem_cons_self).2
    rw [asciiChars, List.map_cons, Utf8.encode_cons, hb.1]
    exact congrArg (b :: ·) (ih fun x hx => h x (List.mem_cons_of_mem _ hx))

theorem units_asciiChars {bytes : Bytes} (h : Ascii bytes) :
    Utf16.encode (asciiChars bytes) = widen bytes := by
  induction bytes with
  | nil => rfl
  | cons b bytes ih =>
    have hb := asciiChar b (h b List.mem_cons_self).2
    rw [asciiChars, List.map_cons, Utf16.encode_cons, hb.2]
    exact congrArg (b.toNat :: ·) (ih fun x hx => h x (List.mem_cons_of_mem _ hx))

theorem noZero_asciiChars {bytes : Bytes} (h : Ascii bytes) : '\x00' ∉ asciiChars bytes := by
  rw [← Utf8.zero_mem_encode, encode_asciiChars h]
  intro hmem
  exact Nat.lt_irrefl 0 (h 0 hmem).1

/-- A digit of the native side is one for Dart and none of the separators. -/
theorem hexDigit_plain {b : UInt8} (h : HexDecoders.isHexDigit b = true) :
    ((0 < b.toNat ∧ b.toNat < 128) ∧ b ≠ 58 ∧ b ≠ 124) ∧ (DartText.hexValue b.toNat).isSome = true := by
  have hall := HexDecoders.of_all_bytes (p := fun b => !HexDecoders.isHexDigit b ||
    decide (((0 < b.toNat ∧ b.toNat < 128) ∧ b ≠ 58 ∧ b ≠ 124) ∧
      (DartText.hexValue b.toNat).isSome = true)) (by decide +kernel) b
  rw [h, Bool.not_true, Bool.false_or, decide_eq_true_eq] at hall
  exact hall

theorem plain_of_hex {bytes : Bytes} (h : HexDecoders.IsHex bytes) : Plain bytes :=
  fun b hb => (hexDigit_plain (h b hb)).1

theorem plain_digits (n : ℕ) : Plain (NumberTexts.digits n) := by
  intro b hb
  have hdigit := (NumberTexts.isDigit_iff b).mp (NumberTexts.isDigit_of_mem hb)
  refine ⟨⟨by omega, by omega⟩, ?_, ?_⟩
  · rintro rfl
    exact absurd hdigit.2 (by decide)
  · rintro rfl
    exact absurd hdigit.2 (by decide)

theorem plain_decimal (z : ℤ) : Plain (NumberTexts.decimal z) := by
  rw [NumberTexts.decimal]
  split_ifs
  · intro b hb
    cases List.mem_cons.mp hb with
    | inl hb =>
      rw [hb]
      decide
    | inr hb => exact plain_digits _ b hb
  · exact plain_digits _

/-! ## Polling -/

theorem cString_append {a b : Bytes} (ha : 0 ∉ a) :
    HexDecoders.cString (a ++ b) = a ++ HexDecoders.cString b := by
  apply List.takeWhile_append_of_pos
  intro x hx
  apply decide_eq_true
  rintro rfl
  exact ha hx

theorem withoutMark_ascii {a : UInt8} {rest : Bytes} (h : a.toNat < 128) :
    withoutMark (a :: rest) = a :: rest := by
  rw [withoutMark, if_neg]
  intro hmark
  rw [List.take_succ_cons, List.cons.injEq] at hmark
  rw [hmark.1] at h
  exact absurd h (by decide)

/-- A text comes back from its bytes. -/
theorem utf8Decode_encode {a : UInt8} {rest : Bytes} {cs : List Char} (ha : a.toNat < 128)
    (h : a :: rest = Utf8.encode cs) : utf8Decode (a :: rest) = some (Utf16.encode cs) := by
  rw [utf8Decode, withoutMark_ascii ha, h, Utf8.decode_encode]
  rfl

section
variable {a b : Bytes} {cs : List Char}

theorem line_chars (cs : List Char) (ha : Ascii a) (hb : Ascii b) :
    a ++ Utf8.encode cs ++ b = Utf8.encode (asciiChars a ++ cs ++ asciiChars b) := by
  rw [Utf8.encode_append, Utf8.encode_append, encode_asciiChars ha, encode_asciiChars hb]

theorem line_units (ha : Ascii a) (hb : Ascii b) :
    Utf16.encode (asciiChars a ++ cs ++ asciiChars b) = widen a ++ Utf16.encode cs ++ widen b := by
  rw [Utf16.encode_append, Utf16.encode_append, units_asciiChars ha, units_asciiChars hb]

theorem line_noZero (ha : Ascii a) (hb : Ascii b) (hzero : '\x00' ∉ cs) :
    0 ∉ a ++ Utf8.encode cs ++ b := by
  rw [line_chars cs ha hb, Utf8.zero_mem_encode, List.mem_append, List.mem_append]
  rintro ((h | h) | h)
  · exact noZero_asciiChars ha h
  · exact hzero h
  · exact noZero_asciiChars hb h

/-- A line with a text between bytes of ASCII is polled as it is. -/
theorem polledText_line (cs : List Char) (ha : Ascii a) (hne : a ≠ []) (hb : Ascii b)
    (hzero : '\x00' ∉ cs) :
    polledText (a ++ Utf8.encode cs ++ b) = some (widen a ++ Utf16.encode cs ++ widen b) := by
  have hdecode : utf8Decode (a ++ Utf8.encode cs ++ b) =
      some (widen a ++ Utf16.encode cs ++ widen b) := by
    rw [← line_units ha hb]
    have hline := line_chars cs ha hb
    obtain ⟨first, rest, rfl⟩ := List.exists_cons_of_ne_nil hne
    exact utf8Decode_encode (ha first List.mem_cons_self).2 hline
  rw [polledText, HexDecoders.cString_eq (line_noZero ha hb hzero), hdecode]

/-- What follows may be any bytes if the line is one of those that are recovered. -/
theorem polledText_tail {text : Bytes} (ha : Ascii a) (hne : a ≠ []) (hb : Ascii b) (hzero : '\x00' ∉ cs)
    (htext : 0 ∉ text)
    (hrecover : recoverablePrefixes.any (·.isPrefixOf (firstChars (a ++ Utf8.encode cs ++ b ++ text)))) :
    ∃ rest, polledText (a ++ Utf8.encode cs ++ b ++ text) =
      some (widen a ++ Utf16.encode cs ++ widen b ++ rest) := by
  have hline := line_chars cs ha hb
  have hmark : withoutMark (a ++ Utf8.encode cs ++ b ++ text) = a ++ Utf8.encode cs ++ b ++ text := by
    obtain ⟨first, rest, rfl⟩ := List.exists_cons_of_ne_nil hne
    exact withoutMark_ascii (ha first List.mem_cons_self).2
  have hwhole : HexDecoders.cString (a ++ Utf8.encode cs ++ b ++ text) =
      a ++ Utf8.encode cs ++ b ++ text := by
    rw [cString_append (line_noZero ha hb hzero), HexDecoders.cString_eq htext]
  rw [polledText, hwhole]
  cases hdecode : utf8Decode (a ++ Utf8.encode cs ++ b ++ text) with
  | some s =>
    rw [utf8Decode, hmark, Option.map_eq_some_iff] at hdecode
    obtain ⟨ds, hds, rfl⟩ := hdecode
    have hbytes := Utf8.encode_of_decode hds
    rw [hline] at hbytes
    obtain ⟨ds', rfl, -⟩ := Utf8.encode_append_inj hbytes
    refine ⟨Utf16.encode ds', ?_⟩
    rw [Utf16.encode_append, line_units ha hb]
  | none =>
    refine ⟨Utf16.encode (Utf8.decodeLossy text), ?_⟩
    dsimp only
    rw [if_pos hrecover, utf8DecodeMalformed, hmark, hline, Utf8.decodeLossy_encode_append,
      Utf16.encode_append, line_units ha hb]

end

theorem polledText_ascii {a : Bytes} (ha : Ascii a) (hne : a ≠ []) : polledText a = some (widen a) := by
  have hnil : Ascii [] := fun b hb => absurd hb List.not_mem_nil
  have hline := polledText_line [] ha hne hnil List.not_mem_nil
  rw [Utf8.encode_nil, List.append_nil, List.append_nil, Utf16.encode_nil, List.append_nil] at hline
  rw [hline]
  exact congrArg some (List.append_nil _)

/-! ## Fields -/

def FriendKey.units (key : FriendKey) : Units := widen key.userID

def GroupID.units (groupID : GroupID) : Units := Utf16.encode groupID.chars

def FilePath.units (path : FilePath) : Units := Utf16.encode path.chars

theorem mem_encode {c : Char} {cs : List Char} (hc : c.toNat < 128) (h : c.toNat ∈ Utf16.encode cs) :
    c ∈ cs := by
  obtain ⟨d, hd, hunit⟩ := List.mem_flatMap.mp h
  have hunits := Utf16.units_unitsOf d
  generalize Utf16.units d = us at hunit hunits
  cases hunits with
  | one _ _ =>
    rw [Utf16.char_ext (List.mem_singleton.mp hunit)]
    exact hd
  | pair hhigh hlow _ =>
    have hbound := hhigh.1
    have hbound' := hlow.1
    rw [List.mem_cons, List.mem_singleton] at hunit
    omega

theorem GroupID.apart (groupID : GroupID) : 58 ∉ groupID.units ∧ 124 ∉ groupID.units :=
  ⟨fun h => groupID.plain.1 (mem_encode (c := ':') (by decide) h),
    fun h => groupID.plain.2 (mem_encode (c := '|') (by decide) h)⟩

theorem FriendKey.hex (key : FriendKey) : HexDecoders.IsHex key.userID := HexDecoders.isHex_written _

theorem FriendKey.length (key : FriendKey) : key.userID.length = 64 := by
  rw [FriendKey.userID, HexDecoders.toxBytesToHex_length, key.size]
  rfl

theorem FriendKey.plain (key : FriendKey) : Plain key.userID := plain_of_hex key.hex

theorem FriendKey.apart (key : FriendKey) : 58 ∉ key.units ∧ 124 ∉ key.units := key.plain.apart

theorem FriendKey.units_ne_nil (key : FriendKey) : key.units ≠ [] := by
  have hlength : key.units.length = 64 := by rw [FriendKey.units, widen_length, key.length]
  exact List.ne_nil_of_length_pos (by omega)

theorem isHex_widen {bytes : Bytes} (h : HexDecoders.IsHex bytes) : isHex (widen bytes) = true := by
  rw [isHex, List.all_eq_true]
  intro u hu
  obtain ⟨b, hb, rfl⟩ := List.mem_map.mp hu
  exact (hexDigit_plain (h b hb)).2

theorem FriendKey.matches (key : FriendKey) : toxPublicKeyPattern key.units = true := by
  rw [toxPublicKeyPattern, FriendKey.units, isHex_widen key.hex, widen_length, key.length]
  rfl

/-- The two digits of a byte, and that Dart reads the byte from them. -/
theorem hexByte_read (b : UInt8) :
    HexDecoders.IsHex (hexByte b) ∧ payloadBytes (widen (hexByte b)) = some [b] := by
  have hall := HexDecoders.of_all_bytes (p := fun b => (hexByte b).all HexDecoders.isHexDigit &&
    decide (payloadBytes (widen (hexByte b)) = some [b])) (by decide +kernel) b
  rw [Bool.and_eq_true, decide_eq_true_eq] at hall
  exact ⟨List.all_eq_true.mp hall.1, hall.2⟩

theorem lowerHex_hex (data : Bytes) : HexDecoders.IsHex (lowerHex data) := by
  intro b hb
  obtain ⟨x, -, hx⟩ := List.mem_flatMap.mp hb
  exact (hexByte_read x).1 b hx

theorem lowerHex_length (data : Bytes) : (lowerHex data).length = 2 * data.length := by
  induction data with
  | nil => rfl
  | cons b data ih =>
    rw [lowerHex, List.flatMap_cons, List.length_append, ← lowerHex, ih, List.length_cons]
    change 2 + 2 * data.length = _
    omega

theorem payloadBytes_hexByte (b : UInt8) (rest : Bytes) :
    payloadBytes (widen (hexByte b ++ rest)) = (payloadBytes (widen rest)).map (b :: ·) := by
  have hall := (hexByte_read b).2
  change payloadBytes (_ :: _ :: widen rest) = _
  change payloadBytes [_, _] = some [b] at hall
  rw [payloadBytes, payloadBytes] at hall
  rw [payloadBytes]
  split at hall
  · rename_i high low bytes hhigh hlow hbytes
    cases hbytes
    cases hall
    rw [hhigh, hlow]
    cases payloadBytes (widen rest) <;> rfl
  · cases hall

theorem payloadBytes_lowerHex (data : Bytes) : payloadBytes (widen (lowerHex data)) = some data := by
  induction data with
  | nil => rfl
  | cons b data ih =>
    rw [lowerHex, List.flatMap_cons, ← lowerHex, payloadBytes_hexByte, ih]
    rfl

/-- A payload of bytes is read back, but an empty one is none. -/
theorem hexPayloadBytes_lowerHex (data : Bytes) :
    hexPayloadBytes (widen (lowerHex data)) = if data = [] then none else some data := by
  cases data with
  | nil => rfl
  | cons b data =>
    have hlength : (widen (lowerHex (b :: data))).length = 2 * (b :: data).length := by
      rw [widen_length, lowerHex_length]
    have hne : widen (lowerHex (b :: data)) ≠ [] := by
      rw [List.length_cons] at hlength
      exact List.ne_nil_of_length_pos (by omega)
    have heven : ¬ (widen (lowerHex (b :: data))).length % 2 = 1 := by omega
    rw [if_neg (List.cons_ne_nil b data), hexPayloadBytes, decide_eq_false hne, decide_eq_false heven,
      hexPayloadPattern, isHex_widen (lowerHex_hex _), decide_eq_true hne, payloadBytes_lowerHex]
    rfl

theorem widen_digits (n : ℕ) : widen (NumberTexts.digits n) = DartText.digits n := by
  rw [widen, NumberTexts.digits, DartText.digits, List.map_map]
  apply List.map_congr_left
  exact fun c hc => (NumberTexts.toNat_digit hc).1

theorem widen_decimal (z : ℤ) : widen (NumberTexts.decimal z) = DartText.decimal z := by
  rw [NumberTexts.decimal, DartText.decimal]
  split_ifs
  · rw [← widen_digits]
    rfl
  · exact widen_digits _

theorem tryParse_decimal {z : ℤ} (hlow : -2 ^ 63 ≤ z) (hhigh : z < 2 ^ 63) :
    tryParse (widen (NumberTexts.decimal z)) = some z := by
  rw [widen_decimal, tryParse, DartText.tryParse_decimal]
  exact if_pos ⟨hlow, hhigh⟩

theorem tryParse_digits {n : ℕ} (h : n < 2 ^ 63) : tryParse (widen (NumberTexts.digits n)) = some (n : ℤ) := by
  have hdecimal : NumberTexts.decimal (n : ℤ) = NumberTexts.digits n := by
    rw [NumberTexts.decimal, if_neg (by omega)]
    rfl
  rw [← hdecimal]
  exact tryParse_decimal (by omega) (by omega)

/-! ## Taking a line apart -/

theorem startsWith_append {pattern : String} {kind : Bytes}
    (h : widen kind = DartText.ofString pattern) (rest : Units) :
    startsWith (widen kind ++ rest) pattern = true := by
  rw [startsWith, h, List.isPrefixOf_iff_prefix]
  exact List.prefix_append _ _

theorem takeWhile_field {α : Type} [DecidableEq α] {u : α} {field rest : List α} (h : u ∉ field) :
    (field ++ u :: rest).takeWhile (· ≠ u) = field := by
  rw [List.takeWhile_append_of_pos, List.takeWhile_cons_of_neg, List.append_nil]
  · rw [decide_eq_true_eq]
    exact fun hne => hne rfl
  · intro x hx
    apply decide_eq_true
    rintro rfl
    exact h hx

/-- The separator behind a field is found. -/
theorem indexOf_field (before field rest : Units) {u : ℕ} (h : u ∉ field) :
    indexOf (before ++ (field ++ u :: rest)) u before.length = some (before.length + field.length) := by
  rw [indexOf, List.drop_left, if_pos (List.mem_append_right _ List.mem_cons_self), takeWhile_field h]

theorem indexOf_first {u : ℕ} {field rest : Units} (h : u ∉ field) :
    indexOf (field ++ u :: rest) u 0 = some field.length := by
  have hfield := indexOf_field [] field rest h
  rwa [List.nil_append, List.length_nil, Nat.zero_add] at hfield

theorem indexOf_none {u : ℕ} {field : Units} (h : u ∉ field) : indexOf field u 0 = none := by
  rw [indexOf, List.drop_zero, if_neg h]

theorem substring_field (before field rest : Units) :
    substring (before ++ (field ++ rest)) before.length (before.length + field.length) = field := by
  rw [substring, List.take_length_add_append, List.drop_left, List.take_left]

theorem drop_field (before field : Units) (u : ℕ) (rest : Units) :
    (before ++ (field ++ u :: rest)).drop (before.length + field.length + 1) = rest := by
  rw [Nat.add_assoc, List.drop_length_add_append, List.drop_length_add_append]
  rfl

theorem splitOn_field {field rest : Units} (h : 58 ∉ field) :
    (field ++ 58 :: rest).splitOn 58 = field :: rest.splitOn 58 := by
  apply List.splitOnP_append_cons_of_forall_mem
  · intro x hx
    apply beq_false_of_ne
    rintro rfl
    exact h hx
  · rfl

/-! ## How both sides spell the kinds -/

/-- The name of a kind with its colon, the same in bytes and in units. -/
def Spelled (pattern : String) (name : Bytes) (length : ℕ) : Prop :=
  ascii pattern = name ++ [58] ∧ widen (name ++ [58]) = DartText.ofString pattern ∧ Plain name ∧
    (name ++ [58]).length = length

instance (pattern : String) (name : Bytes) (length : ℕ) : Decidable (Spelled pattern name length) :=
  inferInstanceAs (Decidable (_ ∧ _))

theorem kinds_spelled : Spelled "file_done:" (ascii "file_done") 10 ∧
    Spelled "progress_recv:" (ascii "progress_recv") 14 ∧ Spelled "c2cbin:" (ascii "c2cbin") 7 ∧
    Spelled "gcustombin:" (ascii "gcustombin") 11 ∧ Spelled "gtext:" (ascii "gtext") "gtext:".length ∧
    Spelled "gaction:" (ascii "gaction") "gaction:".length := by
  decide

theorem marks_spelled : ascii ":" = [58] ∧ ascii "|" = [124] ∧ ascii "|m" = [124, 109] ∧
    widen [109] = DartText.ofString "m" := by
  decide

theorem Spelled.ascii {pattern : String} {name : Bytes} {length : ℕ} (h : Spelled pattern name length) :
    Ascii (name ++ [58]) := by
  have hcolon : Ascii [58] := by decide
  exact h.2.2.1.ascii.append hcolon

end Tim2Tox.EventLines
