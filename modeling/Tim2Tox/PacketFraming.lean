import Mathlib.Data.Nat.Bitwise
import Mathlib.Tactic.IntervalCases
import Tim2Tox.Signaling

set_option autoImplicit false

/-!
# Framing of control and signaling packets

`control::Encode` and `control::Decode`, and `SerializePacket` and `ParsePacket` with the machine
words they copy and the `size_t` sums they check.
-/
namespace Tim2Tox.PacketFraming
open Signaling

/-! ## Control frames -/

namespace Control

def kPacketId : UInt8 := 184
def kMagic : Bytes := [84, 50, 84, 67]
def kVersion : UInt8 := 1
def kFlags : UInt8 := 0
def kHeaderSize : ℕ := 10
def toxMaxCustomPacketSize : ℕ := 1373

def kReceipt : UInt8 := 1
def kReaction : UInt8 := 2
def kGenericCustom : UInt8 := 3
def kGroupIdentity : UInt8 := 4

def isKnownType (type : UInt8) : Bool :=
  type = kReceipt || type = kReaction || type = kGenericCustom || type = kGroupIdentity

structure Packet where
  type : UInt8
  body : Bytes
  deriving DecidableEq

def encode (type : UInt8) (body : Bytes) : Option Bytes :=
  if !isKnownType type || body.length > 2 ^ 16 - 1 ||
      body.length > toxMaxCustomPacketSize - kHeaderSize then none
  else
    let bodySize := body.length
    some ([kPacketId] ++ kMagic ++ [kVersion, type, kFlags, UInt8.ofNat (bodySize >>> 8),
      UInt8.ofNat (bodySize &&& 0xFF)] ++ body)

def bodySize (high low : UInt8) : ℕ := high.toNat <<< 8 ||| low.toNat

def decode : Bytes → Option Packet
  | packetId :: magic₀ :: magic₁ :: magic₂ :: magic₃ :: version :: type :: flags :: high :: low ::
      body =>
    if kHeaderSize + body.length > toxMaxCustomPacketSize || packetId ≠ kPacketId ||
        [magic₀, magic₁, magic₂, magic₃] ≠ kMagic || version ≠ kVersion || flags ≠ kFlags then none
    else if !isKnownType type then none
    else if kHeaderSize + body.length ≠ kHeaderSize + bodySize high low then none
    else some { type, body }
  | _ => none

theorem bodySize_eq (high low : UInt8) : bodySize high low = 256 * high.toNat + low.toNat := by
  have hlow : low.toNat < 2 ^ 8 := low.toNat_lt
  rw [bodySize, ← Nat.shiftLeft_add_eq_or_of_lt hlow, Nat.shiftLeft_eq]
  omega

theorem bodySize_bytes {n : ℕ} (h : n < 2 ^ 16) :
    bodySize (UInt8.ofNat (n >>> 8)) (UInt8.ofNat (n &&& 0xFF)) = n := by
  rw [bodySize_eq, UInt8.toNat_ofNat', UInt8.toNat_ofNat', Nat.shiftRight_eq_div_pow,
    show (0xFF : ℕ) = 2 ^ 8 - 1 from rfl, Nat.and_two_pow_sub_one_eq_mod]
  omega

theorem high_bodySize (high low : UInt8) : UInt8.ofNat (bodySize high low >>> 8) = high := by
  apply UInt8.toNat_inj.mp
  have hhigh := high.toNat_lt
  have hlow := low.toNat_lt
  rw [UInt8.toNat_ofNat', Nat.shiftRight_eq_div_pow, bodySize_eq]
  omega

theorem low_bodySize (high low : UInt8) : UInt8.ofNat (bodySize high low &&& 0xFF) = low := by
  apply UInt8.toNat_inj.mp
  have hlow := low.toNat_lt
  rw [UInt8.toNat_ofNat', show (0xFF : ℕ) = 2 ^ 8 - 1 from rfl, Nat.and_two_pow_sub_one_eq_mod,
    bodySize_eq]
  omega

/-- The frame of a packet: the header and the body. -/
def frame (type : UInt8) (body : Bytes) : Bytes :=
  kPacketId :: 84 :: 50 :: 84 :: 67 :: kVersion :: type :: kFlags ::
    UInt8.ofNat (body.length >>> 8) :: UInt8.ofNat (body.length &&& 0xFF) :: body

theorem encode_eq (type : UInt8) (body : Bytes) : encode type body =
    if isKnownType type = true ∧ body.length ≤ toxMaxCustomPacketSize - kHeaderSize then
      some (frame type body)
    else none := by
  have hlimit : toxMaxCustomPacketSize - kHeaderSize < 2 ^ 16 := by decide
  have hguard : (!isKnownType type || decide (body.length > 2 ^ 16 - 1) ||
      decide (body.length > toxMaxCustomPacketSize - kHeaderSize)) = true ↔
        ¬ (isKnownType type = true ∧ body.length ≤ toxMaxCustomPacketSize - kHeaderSize) := by
    rw [Bool.or_eq_true, Bool.or_eq_true, Bool.not_eq_true', decide_eq_true_eq, decide_eq_true_eq,
      ← Bool.not_eq_true]
    constructor
    · rintro ((hunknown | hlong) | hlong) ⟨hknown, hfits⟩
      · exact hunknown hknown
      · omega
      · omega
    · intro hnot
      by_cases hknown : isKnownType type = true
      · exact Or.inr (Nat.not_le.mp fun hfits => hnot ⟨hknown, hfits⟩)
      · exact Or.inl (Or.inl hknown)
  unfold encode
  by_cases hsent : isKnownType type = true ∧ body.length ≤ toxMaxCustomPacketSize - kHeaderSize
  · rw [if_neg fun h => hguard.mp h hsent, if_pos hsent]
    rfl
  · rw [if_pos (hguard.mpr hsent), if_neg hsent]

theorem encode_known {type : UInt8} (hknown : isKnownType type = true) (body : Bytes) :
    (encode type body).isSome ↔ body.length ≤ toxMaxCustomPacketSize - kHeaderSize := by
  rw [encode_eq]
  by_cases hfits : body.length ≤ toxMaxCustomPacketSize - kHeaderSize
  · rw [if_pos ⟨hknown, hfits⟩]
    exact ⟨fun _ => hfits, fun _ => rfl⟩
  · rw [if_neg fun h => hfits h.2]
    exact ⟨fun h => Bool.noConfusion h, fun h => absurd h hfits⟩

theorem encode_some {type : UInt8} {body f : Bytes} (h : encode type body = some f) :
    isKnownType type = true ∧ body.length ≤ toxMaxCustomPacketSize - kHeaderSize ∧
      f = frame type body := by
  rw [encode_eq] at h
  split_ifs at h with hsent
  exact ⟨hsent.1, hsent.2, (Option.some.inj h).symm⟩

theorem decode_encode {type : UInt8} {body f : Bytes} (h : encode type body = some f) :
    decode f = some { type, body } := by
  obtain ⟨hknown, hfits, rfl⟩ := encode_some h
  have hlimit : toxMaxCustomPacketSize - kHeaderSize < 2 ^ 16 := by decide
  have hsize := bodySize_bytes (n := body.length) (by omega)
  have hbound : ¬ kHeaderSize + body.length > toxMaxCustomPacketSize := by
    simp only [toxMaxCustomPacketSize, kHeaderSize] at hfits ⊢
    omega
  have hmagic : ([84, 50, 84, 67] : Bytes) = kMagic := rfl
  rw [frame, decode, hsize, if_neg, if_neg, if_neg]
  · exact fun hne => hne rfl
  · simp [hknown]
  · simp [hbound, hmagic]

theorem encode_decode {f : Bytes} {packet : Packet} (h : decode f = some packet) :
    encode packet.type packet.body = some f := by
  unfold decode at h
  split at h
  · rename_i packetId magic₀ magic₁ magic₂ magic₃ version type flags high low body
    split_ifs at h with hheader hknown hsize
    obtain rfl := Option.some.inj h
    simp only [Bool.or_eq_true, decide_eq_true_eq, not_or, ne_eq, not_not, kMagic, List.cons.injEq,
      and_true] at hheader hsize
    obtain ⟨⟨⟨⟨hbound, rfl⟩, rfl, rfl, rfl, rfl⟩, rfl⟩, rfl⟩ := hheader
    have hlength : body.length = bodySize high low := by omega
    have hfits : body.length ≤ toxMaxCustomPacketSize - kHeaderSize := by omega
    rw [encode_eq, if_pos ⟨by simpa using hknown, hfits⟩]
    dsimp only
    rw [frame, hlength, high_bodySize, low_bodySize]
  · contradiction

end Control
/-! ## Signaling packets on a machine -/

/-- The targets by the width of `size_t`. -/
inductive Target where
  | ilp32
  | lp64

def Target.sizeMax : Target → ℕ
  | .ilp32 => 2 ^ 32
  | .lp64 => 2 ^ 64

/-- A sum of type `size_t`. -/
def Target.size (target : Target) (n : ℕ) : ℕ := n % target.sizeMax

inductive ByteOrder where
  | little
  | big

/-- The memory of a `uint32_t`. -/
def memory : ByteOrder → ℕ → Bytes
  | .little, n => littleEndian32 n
  | .big, n => bigEndian32 n

def word : ByteOrder → Bytes → ℕ
  | .little, bytes => readLittleEndian32 bytes
  | .big, bytes => readBigEndian32 bytes

def tim2toxHtonl (host : UInt32) : UInt32 :=
  ((host &&& 0x000000FF) <<< 24) ||| ((host &&& 0x0000FF00) <<< 8) |||
    ((host &&& 0x00FF0000) >>> 8) ||| ((host &&& 0xFF000000) >>> 24)

def tim2toxNtohl (net : UInt32) : UInt32 := tim2toxHtonl net

structure Packet where
  type : UInt8
  inviteID : Bytes := []
  data : Bytes := []
  timeout : UInt32
  deriving DecidableEq

def invalidType : UInt8 := 0xFF

def serializePacket (order : ByteOrder) (packet : Packet) : Bytes :=
  [packet.type] ++ memory order packet.inviteID.length ++ packet.inviteID ++
    memory order packet.data.length ++ packet.data ++
    memory order (tim2toxHtonl packet.timeout).toNat

/-- A copy out of the packet, none where it leaves the given bytes. -/
def copy (bytes : Bytes) (offset n : ℕ) : Option Bytes :=
  if offset + n ≤ bytes.length then some ((bytes.drop offset).take n) else none

def parseTimeout (target : Target) (order : ByteOrder) (bytes : Bytes) (offset : ℕ)
    (packet : Packet) : Option Packet :=
  if target.size (offset + 4) > bytes.length then some { packet with type := invalidType }
  else (copy bytes offset 4).bind fun timeoutBE =>
    some { packet with timeout := tim2toxNtohl (UInt32.ofNat (word order timeoutBE)) }

def parseData (target : Target) (order : ByteOrder) (bytes : Bytes) (offset : ℕ)
    (packet : Packet) : Option Packet :=
  if target.size (offset + 4) > bytes.length then some { packet with type := invalidType }
  else (copy bytes offset 4).bind fun dataLength =>
    let offset := target.size (offset + 4)
    let dataLength := word order dataLength
    if target.size (offset + dataLength) > bytes.length then
      some { packet with type := invalidType }
    else (copy bytes offset dataLength).bind fun data =>
      parseTimeout target order bytes (target.size (offset + dataLength)) { packet with data }

/-- The parsed packet, none where a copy would leave the given bytes; `junk` stands for the
    timeout nobody wrote yet. -/
def parsePacket (target : Target) (order : ByteOrder) (junk : UInt32) :
    Option Bytes → Option Packet
  | none => some { type := invalidType, timeout := junk }
  | some bytes =>
    if bytes.length < 13 then some { type := invalidType, timeout := junk }
    else (copy bytes 0 1).bind fun type =>
      (copy bytes 1 4).bind fun inviteIDLength =>
        let packet : Packet := { type := type.headD 0, timeout := junk }
        let inviteIDLength := word order inviteIDLength
        if target.size (5 + inviteIDLength) > bytes.length then
          some { packet with type := invalidType }
        else (copy bytes 5 inviteIDLength).bind fun inviteID =>
          parseData target order bytes (target.size (5 + inviteIDLength)) { packet with inviteID }

/-! ## What the length fields say -/

def inviteIDLength (order : ByteOrder) (bytes : Bytes) : ℕ := word order ((bytes.drop 1).take 4)

def dataLength (order : ByteOrder) (bytes : Bytes) : ℕ :=
  word order ((bytes.drop (5 + inviteIDLength order bytes)).take 4)

/-- Where the fields after the type end. -/
def ends (order : ByteOrder) (bytes : Bytes) : List ℕ :=
  let id := inviteIDLength order bytes
  let data := dataLength order bytes
  [5 + id, 9 + id, 9 + id + data, 13 + id + data]

/-- The packet holds every field its length fields announce. -/
def fits (order : ByteOrder) (bytes : Bytes) : Bool :=
  13 ≤ bytes.length && (ends order bytes).all (· ≤ bytes.length)

/-- The fields of a packet that holds them. -/
def fields (order : ByteOrder) (bytes : Bytes) : Packet :=
  let id := inviteIDLength order bytes
  let data := dataLength order bytes
  { type := bytes.headD 0
    inviteID := (bytes.drop 5).take id
    data := (bytes.drop (9 + id)).take data
    timeout := tim2toxNtohl (UInt32.ofNat (word order ((bytes.drop (9 + id + data)).take 4))) }

/-- The first field that ends beyond the packet ends beyond the range of `size_t`. -/
def wraps (target : Target) (order : ByteOrder) (bytes : Bytes) : Bool :=
  13 ≤ bytes.length &&
    ((ends order bytes).find? (· > bytes.length)).any (target.sizeMax ≤ ·)

/-- The parser reads the given bytes only, all fields of a packet that holds them and none but the
    invalid type of one that does not. -/
def ParsedWithin (target : Target) (order : ByteOrder) (junk : UInt32) (bytes : Bytes) : Prop :=
  ∃ packet, parsePacket target order junk (some bytes) = some packet ∧
    if fits order bytes then packet = fields order bytes else packet.type = invalidType

theorem littleEndian_lt (bytes : Bytes) : readLittleEndian32 bytes < 2 ^ 32 := by
  have hshort : (bytes.take 4).length ≤ 4 := List.length_take_le _ _
  have hbound : ∀ l : Bytes, l.foldr (fun byte n => byte.toNat + 2 ^ 8 * n) 0 < 2 ^ (8 * l.length) := by
    intro l
    induction l with
    | nil => decide
    | cons byte rest ih =>
      have hbyte := byte.toNat_lt
      have hpow : 2 ^ (8 * (byte :: rest).length) = 2 ^ 8 * 2 ^ (8 * rest.length) := by
        rw [List.length_cons, ← Nat.pow_add]
        congr 1
        omega
      rw [List.foldr_cons, hpow]
      omega
  calc readLittleEndian32 bytes < 2 ^ (8 * (bytes.take 4).length) := hbound _
    _ ≤ 2 ^ 32 := Nat.pow_le_pow_right (by decide) (by omega)

theorem bigEndian_eq (bytes : Bytes) :
    readBigEndian32 bytes = readLittleEndian32 (bytes.take 4).reverse := by
  have hlength : (bytes.take 4).reverse.length ≤ 4 := by
    rw [List.length_reverse]
    exact List.length_take_le _ _
  rw [readBigEndian32, readLittleEndian32, List.take_of_length_le hlength, List.foldr_reverse]
  congr 1
  funext n byte
  exact Nat.add_comm _ _

theorem word_lt (order : ByteOrder) (bytes : Bytes) : word order bytes < 2 ^ 32 := by
  cases order with
  | little => exact littleEndian_lt bytes
  | big =>
    change readBigEndian32 bytes < 2 ^ 32
    rw [bigEndian_eq]
    exact littleEndian_lt _

theorem word_lt_sizeMax (target : Target) (order : ByteOrder) (bytes : Bytes) :
    word order bytes < target.sizeMax := by
  have hword := word_lt order bytes
  cases target with
  | ilp32 => exact hword
  | lp64 => exact hword.trans (by decide)

section
variable {target : Target} {order : ByteOrder} {junk : UInt32} {bytes : Bytes}

/-- A check and the copy it guards: the field is there, or ends beyond the packet, or its end
    wraps, passes the check and leaves the packet. -/
theorem checked_copy {offset n : ℕ} (hlength : bytes.length < target.sizeMax)
    (hoffset : offset ≤ bytes.length) (hn : n < target.sizeMax) (bad : Packet)
    (next : Bytes → Option Packet) :
    (if target.size (offset + n) > bytes.length then some bad
      else (copy bytes offset n).bind next) =
    if offset + n ≤ bytes.length then next ((bytes.drop offset).take n)
    else if offset + n < target.sizeMax then some bad else none := by
  by_cases hfits : offset + n ≤ bytes.length
  · have hsize : target.size (offset + n) = offset + n := Nat.mod_eq_of_lt (by omega)
    rw [hsize, if_neg (by omega), if_pos hfits, copy, if_pos hfits, Option.bind_some]
  · rw [if_neg hfits, copy, if_neg hfits, Option.bind_none]
    by_cases hrange : offset + n < target.sizeMax
    · have hsize : target.size (offset + n) = offset + n := Nat.mod_eq_of_lt hrange
      rw [hsize, if_pos (by omega), if_pos hrange]
    · have hsize : target.size (offset + n) = offset + n - target.sizeMax := by
        rw [Target.size, Nat.mod_eq_sub_mod (by omega), Nat.mod_eq_of_lt (by omega)]
      rw [hsize, if_neg (by omega), if_neg hrange]

theorem four_lt_sizeMax (target : Target) : 4 < target.sizeMax := by
  cases target <;> decide

theorem parseTimeout_eq {offset : ℕ} (hlength : bytes.length < target.sizeMax)
    (hoffset : offset ≤ bytes.length) (packet : Packet) :
    parseTimeout target order bytes offset packet =
      if offset + 4 ≤ bytes.length then
        some { packet with
          timeout := tim2toxNtohl (UInt32.ofNat (word order ((bytes.drop offset).take 4))) }
      else if offset + 4 < target.sizeMax then some { packet with type := invalidType }
      else none :=
  checked_copy hlength hoffset (four_lt_sizeMax target) _ _

theorem parseData_eq {offset : ℕ} (hlength : bytes.length < target.sizeMax)
    (hoffset : offset ≤ bytes.length) (packet : Packet) :
    parseData target order bytes offset packet =
      if offset + 4 ≤ bytes.length then
        let dataLength := word order ((bytes.drop offset).take 4)
        if offset + 4 + dataLength ≤ bytes.length then
          parseTimeout target order bytes (offset + 4 + dataLength)
            { packet with data := (bytes.drop (offset + 4)).take dataLength }
        else if offset + 4 + dataLength < target.sizeMax then
          some { packet with type := invalidType }
        else none
      else if offset + 4 < target.sizeMax then some { packet with type := invalidType }
      else none := by
  unfold parseData
  rw [checked_copy hlength hoffset (four_lt_sizeMax target)]
  by_cases hfour : offset + 4 ≤ bytes.length
  · have hsize : target.size (offset + 4) = offset + 4 := Nat.mod_eq_of_lt (by omega)
    rw [if_pos hfour, if_pos hfour]
    dsimp only
    rw [hsize, checked_copy hlength hfour (word_lt_sizeMax target order _)]
    by_cases hdata : offset + 4 + word order ((bytes.drop offset).take 4) ≤ bytes.length
    · have hsize' : target.size (offset + 4 + word order ((bytes.drop offset).take 4)) =
          offset + 4 + word order ((bytes.drop offset).take 4) := Nat.mod_eq_of_lt (by omega)
      rw [if_pos hdata, if_pos hdata, hsize']
    · rw [if_neg hdata, if_neg hdata]
  · rw [if_neg hfour, if_neg hfour]

/-- The parser by where the fields end: it goes on, finds the packet invalid or leaves it. -/
theorem parsePacket_eq (hlength : bytes.length < target.sizeMax) (hmin : 13 ≤ bytes.length) :
    parsePacket target order junk (some bytes) =
      let packet : Packet := { type := bytes.headD 0, timeout := junk }
      let id := inviteIDLength order bytes
      if 5 + id ≤ bytes.length then
        parseData target order bytes (5 + id) { packet with inviteID := (bytes.drop 5).take id }
      else if 5 + id < target.sizeMax then some { packet with type := invalidType }
      else none := by
  have htype : (((bytes.drop 0).take 1).headD 0) = bytes.headD 0 := by
    cases bytes with
    | nil => rfl
    | cons byte rest => rfl
  rw [parsePacket, if_neg (by omega), copy, if_pos (by omega), Option.bind_some, copy,
    if_pos (by omega), Option.bind_some]
  dsimp only
  rw [htype, checked_copy hlength (by omega) (word_lt_sizeMax target order _)]
  change (if 5 + inviteIDLength order bytes ≤ bytes.length then _ else _) = _
  by_cases hid : 5 + inviteIDLength order bytes ≤ bytes.length
  · have hsize : target.size (5 + inviteIDLength order bytes) = 5 + inviteIDLength order bytes :=
      Nat.mod_eq_of_lt (by omega)
    rw [if_pos hid, if_pos hid]
    change parseData target order bytes (target.size (5 + inviteIDLength order bytes)) _ = _
    rw [hsize]
    rfl
  · rw [if_neg hid, if_neg hid]
    rfl

theorem fits_iff (hmin : 13 ≤ bytes.length) : fits order bytes = true ↔
    13 + inviteIDLength order bytes + dataLength order bytes ≤ bytes.length := by
  simp only [fits, ends, hmin, List.all_cons, List.all_nil, Bool.and_eq_true, decide_eq_true_eq,
    and_true, true_and]
  omega

/-- The end a field has beyond the packet decides whether the sum wraps. -/
theorem wraps_eq (hmin : 13 ≤ bytes.length) {before later : List ℕ} {e : ℕ}
    (hends : ends order bytes = before ++ e :: later) (hbefore : ∀ d ∈ before, d ≤ bytes.length)
    (hbeyond : bytes.length < e) : wraps target order bytes = decide (target.sizeMax ≤ e) := by
  have hskip : before.find? (fun d => decide (d > bytes.length)) = none :=
    List.find?_eq_none.mpr fun d hd => by simpa using hbefore d hd
  rw [wraps, hends, List.find?_append, hskip, Option.none_or,
    List.find?_cons_of_pos (by simpa using hbeyond), Option.any_some, decide_eq_true hmin,
    Bool.true_and]

theorem wraps_fitting (h : ∀ e ∈ ends order bytes, e ≤ bytes.length) :
    wraps target order bytes = false := by
  have hskip : (ends order bytes).find? (fun e => decide (e > bytes.length)) = none :=
    List.find?_eq_none.mpr fun e he => by simpa using h e he
  rw [wraps, hskip, Option.any_none, Bool.and_false]

/-- How the parser ends. -/
inductive Ends (target : Target) (order : ByteOrder) (bytes : Bytes) (result : Option Packet) :
    Prop where
  | full (hfits : fits order bytes = true) (hwraps : wraps target order bytes = false)
      (hresult : result = some (fields order bytes))
  | short (packet : Packet) (hfits : fits order bytes = false)
      (hwraps : wraps target order bytes = false) (hresult : result = some packet)
      (htype : packet.type = invalidType)
  | left (hfits : fits order bytes = false) (hwraps : wraps target order bytes = true)
      (hresult : result = none)

theorem Ends.beyond (hmin : 13 ≤ bytes.length) {before later : List ℕ} {e : ℕ} {packet : Packet}
    (hends : ends order bytes = before ++ e :: later) (hbefore : ∀ d ∈ before, d ≤ bytes.length)
    (hbeyond : ¬ e ≤ bytes.length) (htype : packet.type = invalidType) :
    Ends target order bytes (if e < target.sizeMax then some packet else none) := by
  have hwraps := @wraps_eq target _ _ hmin _ _ _ hends hbefore (Nat.not_le.mp hbeyond)
  have hfits : fits order bytes = false := by
    rw [fits, hends, List.all_append, List.all_cons, decide_eq_false hbeyond]
    simp
  by_cases hrange : e < target.sizeMax
  · rw [if_pos hrange]
    rw [decide_eq_false (Nat.not_le.mpr hrange)] at hwraps
    exact Ends.short _ hfits hwraps rfl htype
  · rw [if_neg hrange]
    rw [decide_eq_true (Nat.not_lt.mp hrange)] at hwraps
    exact Ends.left hfits hwraps rfl

theorem parsePacket_ends (hlength : bytes.length < target.sizeMax) :
    Ends target order bytes (parsePacket target order junk (some bytes)) := by
  by_cases hmin : 13 ≤ bytes.length
  · have hfour : 5 + inviteIDLength order bytes + 4 = 9 + inviteIDLength order bytes := by omega
    have hdataLength : word order ((bytes.drop (5 + inviteIDLength order bytes)).take 4) =
        dataLength order bytes := rfl
    rw [parsePacket_eq hlength hmin]
    dsimp only
    by_cases hid : 5 + inviteIDLength order bytes ≤ bytes.length
    · rw [if_pos hid, parseData_eq hlength hid, hfour, hdataLength]
      dsimp only
      by_cases hprefix : 9 + inviteIDLength order bytes ≤ bytes.length
      · rw [if_pos hprefix]
        by_cases hdata : 9 + inviteIDLength order bytes + dataLength order bytes ≤ bytes.length
        · rw [if_pos hdata, parseTimeout_eq hlength hdata]
          have hlast : 9 + inviteIDLength order bytes + dataLength order bytes + 4 =
              13 + inviteIDLength order bytes + dataLength order bytes := by omega
          rw [hlast]
          by_cases htimeout : 13 + inviteIDLength order bytes + dataLength order bytes ≤
              bytes.length
          · rw [if_pos htimeout]
            refine Ends.full ((fits_iff hmin).mpr htimeout) (wraps_fitting ?_) rfl
            intro e he
            have hfits := (@fits_iff order _ hmin).mpr htimeout
            rw [fits, Bool.and_eq_true, List.all_eq_true] at hfits
            simpa using hfits.2 e he
          · rw [if_neg htimeout]
            refine @Ends.beyond _ _ _ hmin [_, _, _] _ _ _ rfl (fun d hd => ?_) htimeout rfl
            simp only [List.mem_cons, List.not_mem_nil, or_false] at hd
            omega
        · rw [if_neg hdata]
          refine @Ends.beyond _ _ _ hmin [_, _] _ _ _ rfl (fun d hd => ?_) hdata rfl
          simp only [List.mem_cons, List.not_mem_nil, or_false] at hd
          omega
      · rw [if_neg hprefix]
        refine @Ends.beyond _ _ _ hmin [_] _ _ _ rfl (fun d hd => ?_) hprefix rfl
        rw [List.mem_singleton] at hd
        omega
    · rw [if_neg hid]
      exact @Ends.beyond _ _ _ hmin [] _ _ _ rfl (fun d hd => absurd hd List.not_mem_nil) hid rfl
  · rw [parsePacket, if_pos (by omega)]
    refine Ends.short _ ?_ ?_ rfl rfl
    · rw [fits, decide_eq_false hmin, Bool.false_and]
    · rw [wraps, decide_eq_false hmin, Bool.false_and]

theorem parsedWithin_iff (hlength : bytes.length < target.sizeMax) :
    ParsedWithin target order junk bytes ↔ wraps target order bytes = false := by
  unfold ParsedWithin
  cases @parsePacket_ends _ order junk _ hlength with
  | full hfits hwraps hresult =>
    rw [hresult, hfits, hwraps]
    exact ⟨fun _ => rfl, fun _ => ⟨_, rfl, rfl⟩⟩
  | short packet hfits hwraps hresult htype =>
    rw [hresult, hfits, hwraps]
    exact ⟨fun _ => rfl, fun _ => ⟨packet, rfl, htype⟩⟩
  | left hfits hwraps hresult =>
    rw [hresult, hwraps]
    constructor
    · intro h
      obtain ⟨packet, hnone, -⟩ := h
      contradiction
    · intro h
      contradiction

theorem wraps_lp64 (order : ByteOrder) (bytes : Bytes) : wraps .lp64 order bytes = false := by
  have hid : inviteIDLength order bytes < 2 ^ 32 := word_lt order _
  have hdata : dataLength order bytes < 2 ^ 32 := word_lt order _
  have hsmall : ∀ e ∈ ends order bytes, e < Target.lp64.sizeMax := by
    intro e he
    simp only [ends, List.mem_cons, List.not_mem_nil, or_false] at he
    change e < 2 ^ 64
    omega
  rw [wraps]
  rcases hfind : (ends order bytes).find? fun e => decide (e > bytes.length) with _ | e
  · rw [Option.any_none, Bool.and_false]
  · have hrange := hsmall e (List.mem_of_find?_eq_some hfind)
    rw [Option.any_some, decide_eq_false (Nat.not_le.mpr hrange), Bool.and_false]

end

/-! ## The round trip -/

theorem htonl_bit (v : UInt32) {i : ℕ} (hi : i < 32) :
    (tim2toxHtonl v).toBitVec.getLsbD i = v.toBitVec.getLsbD (8 * (3 - i / 8) + i % 8) := by
  simp only [tim2toxHtonl, UInt32.toBitVec_or, UInt32.toBitVec_and, UInt32.toBitVec_shiftLeft,
    UInt32.toBitVec_shiftRight]
  interval_cases i <;> simp [UInt32.toBitVec_ofNat]

theorem ntohl_htonl (v : UInt32) : tim2toxNtohl (tim2toxHtonl v) = v := by
  apply UInt32.eq_of_toBitVec_eq
  apply BitVec.eq_of_getLsbD_eq
  intro i hi
  rw [tim2toxNtohl, htonl_bit _ hi, htonl_bit _ (by omega)]
  congr 1
  omega

theorem read_littleEndian {n : ℕ} (h : n < 2 ^ 32) (rest : Bytes) :
    readLittleEndian32 (littleEndian32 n ++ rest) = n := by
  rw [readLittleEndian32, littleEndian32]
  simp only [List.cons_append, List.nil_append, List.take_succ_cons, List.take_zero,
    List.foldr_cons, List.foldr_nil, UInt8.toNat_ofNat']
  omega

theorem memory_length (order : ByteOrder) (n : ℕ) : (memory order n).length = 4 := by
  cases order <;> rfl

theorem word_memory (order : ByteOrder) {n : ℕ} (h : n < 2 ^ 32) :
    word order (memory order n) = n := by
  have hlittle : readLittleEndian32 (littleEndian32 n) = n := by
    have hread := read_littleEndian h []
    rwa [List.append_nil] at hread
  cases order with
  | little => exact hlittle
  | big =>
    change readBigEndian32 (bigEndian32 n) = n
    rw [bigEndian_eq, List.take_of_length_le (by rfl), bigEndian32, List.reverse_reverse, hlittle]

section
variable {order : ByteOrder} {packet : Packet}

theorem serializePacket_eq (order : ByteOrder) (packet : Packet) : serializePacket order packet =
    packet.type :: (memory order packet.inviteID.length ++ (packet.inviteID ++
      (memory order packet.data.length ++ (packet.data ++
        memory order (tim2toxHtonl packet.timeout).toNat)))) := by
  simp [serializePacket]

theorem serializePacket_length (order : ByteOrder) (packet : Packet) :
    (serializePacket order packet).length =
      13 + packet.inviteID.length + packet.data.length := by
  simp only [serializePacket_eq, List.length_cons, List.length_append, memory_length]
  omega

theorem drop_five (order : ByteOrder) (packet : Packet) :
    (serializePacket order packet).drop 5 = packet.inviteID ++
      (memory order packet.data.length ++ (packet.data ++
        memory order (tim2toxHtonl packet.timeout).toNat)) := by
  rw [serializePacket_eq, List.drop_succ_cons]
  exact List.drop_left' (memory_length _ _)

theorem drop_inviteID (order : ByteOrder) (packet : Packet) :
    (serializePacket order packet).drop (5 + packet.inviteID.length) =
      memory order packet.data.length ++ (packet.data ++
        memory order (tim2toxHtonl packet.timeout).toNat) := by
  rw [← List.drop_drop, drop_five]
  exact List.drop_left

theorem drop_nine (order : ByteOrder) (packet : Packet) :
    (serializePacket order packet).drop (9 + packet.inviteID.length) =
      packet.data ++ memory order (tim2toxHtonl packet.timeout).toNat := by
  have hsum : 9 + packet.inviteID.length = 5 + packet.inviteID.length + 4 := by omega
  rw [hsum, ← List.drop_drop, drop_inviteID]
  exact List.drop_left' (memory_length _ _)

theorem drop_data (order : ByteOrder) (packet : Packet) :
    (serializePacket order packet).drop (9 + packet.inviteID.length + packet.data.length) =
      memory order (tim2toxHtonl packet.timeout).toNat := by
  rw [← List.drop_drop, drop_nine]
  exact List.drop_left

theorem inviteIDLength_serializePacket (hid : packet.inviteID.length < 2 ^ 32) :
    inviteIDLength order (serializePacket order packet) = packet.inviteID.length := by
  have htake : ((serializePacket order packet).drop 1).take 4 =
      memory order packet.inviteID.length := by
    rw [serializePacket_eq]
    exact List.take_left' (memory_length _ _)
  rw [inviteIDLength, htake, word_memory order hid]

theorem dataLength_serializePacket (hid : packet.inviteID.length < 2 ^ 32)
    (hdata : packet.data.length < 2 ^ 32) :
    dataLength order (serializePacket order packet) = packet.data.length := by
  rw [dataLength, inviteIDLength_serializePacket hid, drop_inviteID,
    List.take_left' (memory_length _ _), word_memory order hdata]

theorem fields_serializePacket (hid : packet.inviteID.length < 2 ^ 32)
    (hdata : packet.data.length < 2 ^ 32) : fields order (serializePacket order packet) = packet := by
  rw [fields, inviteIDLength_serializePacket hid, dataLength_serializePacket hid hdata]
  have hword := word_memory order (tim2toxHtonl packet.timeout).toNat_lt
  rw [drop_five, List.take_left, drop_nine, List.take_left, drop_data,
    List.take_of_length_le (memory_length _ _).le, hword, UInt32.ofNat_toNat, ntohl_htonl,
    serializePacket_eq]
  rfl

/-- What is serialized is parsed, wherever its bytes exist. -/
theorem parsePacket_serializePacket (target : Target) (junk : UInt32)
    (hid : packet.inviteID.length < 2 ^ 32) (hdata : packet.data.length < 2 ^ 32)
    (hlength : (serializePacket order packet).length < target.sizeMax) :
    parsePacket target order junk (some (serializePacket order packet)) = some packet := by
  have hmin : 13 ≤ (serializePacket order packet).length := by
    rw [serializePacket_length]
    omega
  have hfits : fits order (serializePacket order packet) = true := by
    rw [fits_iff hmin, inviteIDLength_serializePacket hid, dataLength_serializePacket hid hdata,
      serializePacket_length]
  cases @parsePacket_ends _ order junk _ hlength with
  | full _ _ hresult => rw [hresult, fields_serializePacket hid hdata]
  | short _ hnot => rw [hfits] at hnot; contradiction
  | left hnot => rw [hfits] at hnot; contradiction

end

/-! ## The signaling manager's parser -/

theorem htonl_byte (v : UInt32) {k : ℕ} (hk : k < 4) :
    (tim2toxHtonl v).toNat / 2 ^ (8 * k) % 2 ^ 8 = v.toNat / 2 ^ (8 * (3 - k)) % 2 ^ 8 := by
  apply Nat.eq_of_testBit_eq
  intro i
  rw [Nat.testBit_mod_two_pow, Nat.testBit_mod_two_pow, Nat.testBit_div_two_pow,
    Nat.testBit_div_two_pow]
  by_cases hi : i < 8
  · have hbit := htonl_bit v (i := i + 8 * k) (by omega)
    have hindex : 8 * (3 - (i + 8 * k) / 8) + (i + 8 * k) % 8 = i + 8 * (3 - k) := by omega
    rw [hindex] at hbit
    rw [decide_eq_true hi, Bool.true_and, Bool.true_and]
    exact hbit
  · rw [decide_eq_false hi, Bool.false_and, Bool.false_and]

/-- The swapped word in little-endian memory is the big-endian one. -/
theorem littleEndian_htonl (v : UInt32) :
    littleEndian32 (tim2toxHtonl v).toNat = bigEndian32 v.toNat := by
  have hbyte : ∀ m n : ℕ, m % 2 ^ 8 = n % 2 ^ 8 → UInt8.ofNat m = UInt8.ofNat n := by
    intro m n hsame
    apply UInt8.toNat_inj.mp
    rw [UInt8.toNat_ofNat', UInt8.toNat_ofNat']
    exact hsame
  have h₀ := htonl_byte v (k := 0) (by decide)
  have h₁ := htonl_byte v (k := 1) (by decide)
  have h₂ := htonl_byte v (k := 2) (by decide)
  have h₃ := htonl_byte v (k := 3) (by decide)
  rw [Nat.mul_zero, Nat.pow_zero, Nat.div_one] at h₀
  have h₃' : (tim2toxHtonl v).toNat / 2 ^ 24 % 2 ^ 8 = v.toNat % 2 ^ 8 := by
    simpa using h₃
  rw [bigEndian32, littleEndian32, littleEndian32, hbyte _ _ h₀, hbyte _ _ h₁, hbyte _ _ h₂,
    hbyte _ _ h₃']
  rfl

theorem littleEndian_read {bytes : Bytes} (h : bytes.length = 4) :
    littleEndian32 (readLittleEndian32 bytes) = bytes := by
  obtain ⟨b₀, b₁, b₂, b₃, rfl⟩ := List.length_eq_four.mp h
  have hb₀ := b₀.toNat_lt
  have hb₁ := b₁.toNat_lt
  have hb₂ := b₂.toNat_lt
  have hb₃ := b₃.toNat_lt
  have hbyte : ∀ (n : ℕ) (b : UInt8), n % 2 ^ 8 = b.toNat → UInt8.ofNat n = b := by
    intro n b hsame
    apply UInt8.toNat_inj.mp
    rw [UInt8.toNat_ofNat']
    exact hsame
  simp only [readLittleEndian32, List.take_succ_cons, List.take_zero, List.foldr_cons,
    List.foldr_nil, littleEndian32]
  rw [hbyte _ b₀ (by omega), hbyte _ b₁ (by omega), hbyte _ b₂ (by omega), hbyte _ b₃ (by omega)]

theorem ntohl_word {bytes : Bytes} (h : bytes.length = 4) :
    (tim2toxNtohl (UInt32.ofNat (word .little bytes))).toNat = readBigEndian32 bytes := by
  have hword : (UInt32.ofNat (word .little bytes)).toNat = readLittleEndian32 bytes :=
    Nat.mod_eq_of_lt (word_lt .little bytes)
  have hswap := littleEndian_htonl (UInt32.ofNat (word .little bytes))
  rw [hword, bigEndian32, littleEndian_read h] at hswap
  have hread := read_littleEndian (tim2toxHtonl (UInt32.ofNat (word .little bytes))).toNat_lt []
  rw [List.append_nil, hswap] at hread
  rw [bigEndian_eq, List.take_of_length_le h.le, hread]
  rfl

/-- The packet as the manager's handlers see it: a type without a handler is none. -/
def Packet.handled (packet : Packet) : Option SignalingPacket :=
  (SignalingType.ofCode packet.type).map fun type =>
    { type, inviteID := packet.inviteID, data := packet.data, timeout := packet.timeout.toNat }

theorem read_take (bytes : Bytes) :
    readLittleEndian32 bytes = word .little (bytes.take 4) := by
  change _ = readLittleEndian32 (bytes.take 4)
  rw [readLittleEndian32, readLittleEndian32, List.take_take, Nat.min_self]

theorem read_big_take (bytes : Bytes) :
    readBigEndian32 bytes = readBigEndian32 (bytes.take 4) := by
  rw [readBigEndian32, readBigEndian32, List.take_take, Nat.min_self]

theorem signaling_parsePacket (bytes : Bytes) : Signaling.parsePacket bytes =
    if fits .little bytes then (fields .little bytes).handled else none := by
  have hid : readLittleEndian32 (bytes.drop 1) = inviteIDLength .little bytes := read_take _
  have hdata : readLittleEndian32 (bytes.drop (5 + inviteIDLength .little bytes)) =
      dataLength .little bytes := read_take _
  unfold Signaling.parsePacket
  rw [hid]
  dsimp only
  rw [hdata]
  by_cases hmin : 13 ≤ bytes.length
  · have hfits := @fits_iff .little _ hmin
    by_cases hall : fits .little bytes = true
    · have hend := hfits.mp hall
      have htake : ((bytes.drop (9 + inviteIDLength .little bytes +
          dataLength .little bytes)).take 4).length = 4 := by
        rw [List.length_take, List.length_drop]
        omega
      have htimeout := ntohl_word htake
      rw [← read_big_take] at htimeout
      rw [if_pos hall, Packet.handled, fields]
      have hnine : 5 + inviteIDLength .little bytes + 4 = 9 + inviteIDLength .little bytes := by
        omega
      rw [hnine]
      dsimp only
      rw [htimeout]
      cases htype : SignalingType.ofCode (bytes.headD 0) with
      | none => simp [guard, hmin]
      | some type =>
        have h₁ : 5 + inviteIDLength .little bytes ≤ bytes.length := by omega
        have h₂ : 9 + inviteIDLength .little bytes ≤ bytes.length := by omega
        have h₃ : 9 + inviteIDLength .little bytes + dataLength .little bytes ≤ bytes.length := by
          omega
        have h₄ : 9 + inviteIDLength .little bytes + dataLength .little bytes + 4 ≤
            bytes.length := by omega
        simp [guard, hmin, h₁, h₂, h₃, h₄]
    · have hend : ¬ 5 + inviteIDLength .little bytes + 4 + dataLength .little bytes + 4 ≤
          bytes.length := fun hle => hall (hfits.mpr (by omega))
      rw [if_neg hall]
      simp [guard, hend]
  · rw [if_neg (by rw [fits, decide_eq_false hmin]; simp)]
    simp [guard, hmin]

theorem parsePacket_handled (junk : UInt32) {bytes : Bytes} (hlength : bytes.length < 2 ^ 64) :
    Signaling.parsePacket bytes =
      (parsePacket .lp64 .little junk (some bytes)).bind Packet.handled := by
  rw [signaling_parsePacket]
  cases @parsePacket_ends .lp64 .little junk _ hlength with
  | full hfits _ hresult =>
    rw [hresult, if_pos hfits]
    rfl
  | short packet hfits _ hresult htype =>
    have hhandled : packet.handled = none := by
      rw [Packet.handled, htype]
      rfl
    rw [hresult, hfits, Option.bind_some, hhandled]
    rfl
  | left _ hwraps =>
    rw [wraps_lp64] at hwraps
    contradiction

/-- Both framings, on every target. A signaling packet is parsed within its bytes unless the end of
    a field beyond them wraps around the range of `size_t`; with 64 bits none does. -/
theorem packets_framed (target : Target) (order : ByteOrder) (junk : UInt32) :
    (∀ type body, Control.isKnownType type = true →
      ((Control.encode type body).isSome ↔
        body.length ≤ Control.toxMaxCustomPacketSize - Control.kHeaderSize)) ∧
    (∀ type body f, Control.encode type body = some f →
      Control.decode f = some { type, body }) ∧
    (∀ f packet, Control.decode f = some packet →
      Control.encode packet.type packet.body = some f) ∧
    (∀ packet : Packet, packet.inviteID.length < 2 ^ 32 → packet.data.length < 2 ^ 32 →
      (serializePacket order packet).length < target.sizeMax →
      parsePacket target order junk (some (serializePacket order packet)) = some packet) ∧
    (∀ bytes : Bytes, bytes.length < target.sizeMax →
      (ParsedWithin target order junk bytes ↔ wraps target order bytes = false)) ∧
    ∀ bytes, wraps .lp64 order bytes = false :=
  ⟨fun _ body hknown => Control.encode_known hknown body,
    fun _ _ _ hsent => Control.decode_encode hsent,
    fun _ _ hread => Control.encode_decode hread,
    fun _ hid hdata hlength => parsePacket_serializePacket target junk hid hdata hlength,
    fun _ hlength => parsedWithin_iff hlength,
    wraps_lp64 order⟩

/-- An invite of thirteen bytes that announces an id of all of a 32-bit address space. -/
theorem wrapped_length_leaves_packet :
    parsePacket .ilp32 .little 0 (some [1, 0xFB, 0xFF, 0xFF, 0xFF, 0, 0, 0, 0, 0, 0, 0, 0]) = none ∧
      fits .little [1, 0xFB, 0xFF, 0xFF, 0xFF, 0, 0, 0, 0, 0, 0, 0, 0] = false := by
  decide

end Tim2Tox.PacketFraming
