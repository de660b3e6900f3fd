import Mathlib.Algebra.Ring.Int.Defs
import Mathlib.Data.Finset.Basic
import Mathlib.Data.List.AList
import Mathlib.Data.List.DropRight
import Tim2Tox.RendezvousGroups

set_option autoImplicit false

/-!
# The rendezvous transport

The Dart side of the event lines: `RendezvousTransport.parseLine` and `handleLine`, and the lines
the native side hands to it, those of the builders and all the others.
-/
namespace Tim2Tox.RendezvousTransport
open RendezvousCodec
open RendezvousGroups (kMaxPayloadBytes)

/-! ## Parsing -/

inductive RendezvousEvent where
  | joined (chatIdHex : String) (founded : Bool)
  | left (chatIdHex : String) (reason : String)
  | peer (chatIdHex : String) (peerPkHex : String) (joined : Bool)
  | peersChanged (chatIdHex : String) (count : ℤ)
  | full (chatIdHex : String)
  | packet (chatIdHex : String) (peerPkHex : String) (isPrivate : Bool) (payload : List UInt8)
  deriving DecidableEq

def maxFrameBytes : ℕ := 1200
def maxPayloadBytes : ℕ := maxFrameBytes - 6

def leftReasons : List String := ["kicked", "failed", "stale", "left", "full"]

def isLowerHex (s : List Char) : Bool :=
  s.all fun c => ('0' ≤ c && c ≤ '9') || ('a' ≤ c && c ≤ 'f')

def isChatId (s : List Char) : Bool := s.length = 64 && isLowerHex s
def isKey (s : List Char) : Bool := s.length = 64 && isLowerHex s

/-- A digit of base 36 at most; the caller has checked that it is one. -/
def digitOf (c : Char) : ℕ :=
  if '0' ≤ c ∧ c ≤ '9' then c.toNat - 48
  else if 'a' ≤ c ∧ c ≤ 'z' then c.toNat - 87
  else c.toNat - 55

def bytesOf : List Char → List UInt8
  | hi :: lo :: rest => UInt8.ofNat (16 * digitOf hi + digitOf lo) :: bytesOf rest
  | _ => []

def unhex (s : List Char) : Option (List UInt8) :=
  if s.length % 2 = 1 || !isLowerHex s then none else some (bytesOf s)

/-- The white space that is trimmed: that of Unicode and the byte order mark. -/
def isTrimmed (c : Char) : Bool :=
  (9 ≤ c.toNat && c.toNat ≤ 13) || (0x2000 ≤ c.toNat && c.toNat ≤ 0x200A) ||
    c.toNat ∈ [0x20, 0x85, 0xA0, 0x1680, 0x2028, 0x2029, 0x202F, 0x205F, 0x3000, 0xFEFF]

/-- Hexadecimal digits give the 64 bits of an integer. -/
def tryParseHex (negative : Bool) (digits : List Char) : Option ℤ :=
  let value := digits.foldl (fun n c => 16 * n + digitOf c) 0
  let signed : ℤ := if value < 2 ^ 63 then value else (value : ℤ) - 2 ^ 64
  if digits ≠ [] ∧ value < 2 ^ 64 ∧
      digits.all (fun c => c.isDigit || ('a' ≤ c && c ≤ 'f') || ('A' ≤ c && c ≤ 'F')) then
    some (if negative then -signed else signed)
  else none

def tryParseDecimal (negative : Bool) (digits : List Char) : Option ℤ :=
  let value : ℤ := Nat.ofDigitChars 10 digits 0
  let signed := if negative then -value else value
  if digits ≠ [] ∧ digits.all Char.isDigit ∧ -2 ^ 63 ≤ signed ∧ signed < 2 ^ 63 then some signed
  else none

def tryParseUnsigned (negative : Bool) : List Char → Option ℤ
  | '0' :: 'x' :: digits => tryParseHex negative digits
  | '0' :: 'X' :: digits => tryParseHex negative digits
  | digits => tryParseDecimal negative digits

/-- `int.tryParse`. -/
def tryParse (source : List Char) : Option ℤ :=
  match (source.dropWhile isTrimmed).rdropWhile isTrimmed with
  | '-' :: rest => tryParseUnsigned true rest
  | '+' :: rest => tryParseUnsigned false rest
  | rest => tryParseUnsigned false rest

def isRendezvousLine (line : String) : Bool := "rendezvous_".toList.isPrefixOf line.toList

/-- The text before the first colon and the text after it. -/
def cutAtColon (line : List Char) : Option (List Char × List Char) :=
  let kind := line.takeWhile (· ≠ ':')
  if kind.length < line.length then some (kind, line.drop (kind.length + 1)) else none

def parseJoined : List (List Char) → Option RendezvousEvent
  | [chat, founded] =>
    if !isChatId chat then none
    else if founded ≠ ['0'] ∧ founded ≠ ['1'] then none
    else some (.joined (String.ofList chat) (founded = ['1']))
  | _ => none

def parseLeft : List (List Char) → Option RendezvousEvent
  | [chat, reason] =>
    if !isChatId chat || String.ofList reason ∉ leftReasons then none
    else some (.left (String.ofList chat) (String.ofList reason))
  | _ => none

def parsePeer : List (List Char) → Option RendezvousEvent
  | [chat, key, way] =>
    if !isChatId chat || !isKey key then none
    else if way ≠ "join".toList ∧ way ≠ "exit".toList then none
    else some (.peer (String.ofList chat) (String.ofList key) (way = "join".toList))
  | _ => none

def parsePeersChanged : List (List Char) → Option RendezvousEvent
  | [chat, number] =>
    if !isChatId chat then none
    else match tryParse number with
      | some count => if count < 0 then none else some (.peersChanged (String.ofList chat) count)
      | none => none
  | _ => none

def parseFull (rest : List Char) : Option RendezvousEvent :=
  if !isChatId rest then none else some (.full (String.ofList rest))

def parsePacket : List (List Char) → Option RendezvousEvent
  | [chat, key, way, hexText] =>
    if !isChatId chat || !isKey key then none
    else if way ≠ ['b'] ∧ way ≠ ['p'] then none
    else match unhex hexText with
      | some payload =>
        if payload.length > maxPayloadBytes then none
        else some (.packet (String.ofList chat) (String.ofList key) (way = ['p']) payload)
      | none => none
  | _ => none

def parseLine (line : String) : Option RendezvousEvent :=
  if !isRendezvousLine line then none
  else match cutAtColon line.toList with
    | none => none
    | some (kind, rest) =>
      if kind = "rendezvous_joined".toList then parseJoined (rest.splitOn ':')
      else if kind = "rendezvous_left".toList then parseLeft (rest.splitOn ':')
      else if kind = "rendezvous_peer".toList then parsePeer (rest.splitOn ':')
      else if kind = "rendezvous_peers_changed".toList then parsePeersChanged (rest.splitOn ':')
      else if kind = "rendezvous_full".toList then parseFull rest
      else if kind = "rendezvous_packet".toList then parsePacket (rest.splitOn ':')
      else none

/-! ## The transport -/

/-- The cells each instance has been told it is in, and the events so far. -/
structure Transport where
  joined : AList fun _ : ℤ => Finset String := ∅
  events : List (ℤ × RendezvousEvent) := []

namespace Transport

def joinedChatIdsOf (t : Transport) (instanceId : ℤ) : Finset String :=
  (t.joined.lookup instanceId).getD ∅

/-- The chat ids of all instances. -/
def joinedChatIds (t : Transport) : Finset String :=
  t.joined.entries.foldr (fun entry ids => entry.2 ∪ ids) ∅

def record (joined : AList fun _ : ℤ => Finset String) (instanceId : ℤ) :
    RendezvousEvent → AList fun _ : ℤ => Finset String
  | .joined chatIdHex _ =>
    joined.insert instanceId (insert chatIdHex ((joined.lookup instanceId).getD ∅))
  | .left chatIdHex _ =>
    match joined.lookup instanceId with
    | none => joined
    | some cells =>
      if cells.erase chatIdHex = ∅ then joined.erase instanceId
      else joined.insert instanceId (cells.erase chatIdHex)
  | _ => joined

/-- Whether the line was a rendezvous line, parsed or not, and the transport after it. -/
def handleLine (t : Transport) (line : String) (instanceId : ℤ) : Bool × Transport :=
  if !isRendezvousLine line then (false, t)
  else match parseLine line with
    | none => (true, t)
    | some event =>
      (true, ⟨record t.joined instanceId event, t.events ++ [(instanceId, event)]⟩)

end Transport

/-! ## The lines of the native side -/

abbrev PeerKey := Vector UInt8 32

/-- The lines that are not for the transport, by the text they begin with. -/
inductive LineKind where
  | conn | typing | c2c | c2caction | c2cbin | gtext | gaction | gcustombin
  | avatarRequest | fileRequest | fileDone | fileRecvFailed | fileResumed | filePaused | fileCanceled
  | progressSend | progressRecv | nicknameChanged | statusChanged

def LineKind.text : LineKind → String
  | .conn => "conn:"
  | .typing => "typing:"
  | .c2c => "c2c:"
  | .c2caction => "c2caction:"
  | .c2cbin => "c2cbin:"
  | .gtext => "gtext:"
  | .gaction => "gaction:"
  | .gcustombin => "gcustombin:"
  | .avatarRequest => "avatar_request:"
  | .fileRequest => "file_request:"
  | .fileDone => "file_done:"
  | .fileRecvFailed => "file_recv_failed:"
  | .fileResumed => "file_resumed:"
  | .filePaused => "file_paused:"
  | .fileCanceled => "file_canceled:"
  | .progressSend => "progress_send:"
  | .progressRecv => "progress_recv:"
  | .nicknameChanged => "nickname_changed:"
  | .statusChanged => "status_changed:"

/-- A builder with what it is called with: a left line never says that a group is left to be founded
    again, peers are keyed by 32-bit numbers, and longer payloads are dropped before. -/
inductive Call where
  | joinedLine (chatId : ChatId) (founded : Bool)
  | leftLine (chatId : ChatId) (reason : {reason : Reason // reason ≠ .unset ∧ reason ≠ .refound})
  | peerLine (chatId : ChatId) (peerPk : PeerKey) (joined : Bool)
  | peersChangedLine (chatId : ChatId) (count : {count : ℕ // count ≤ 2 ^ 32})
  | fullLine (chatId : ChatId)
  | packetLine (chatId : ChatId) (peerPk : PeerKey) (isPrivate : Bool)
      (payload : {payload : List UInt8 // payload.length ≤ kMaxPayloadBytes})

/-- The identifiers go in as lower-case hex. -/
def Call.line : Call → Line
  | .joinedLine chatId founded => .joined (hex chatId.toList) founded
  | .leftLine chatId reason => .left (hex chatId.toList) reason.1
  | .peerLine chatId peerPk entered => .peer (hex chatId.toList) (hex peerPk.toList) entered
  | .peersChangedLine chatId count => .peersChanged (hex chatId.toList) count.1
  | .fullLine chatId => .full (hex chatId.toList)
  | .packetLine chatId peerPk isPrivate payload =>
    .packet (hex chatId.toList) (hex peerPk.toList) isPrivate payload.1

/-- The event of the same kind with the same fields. -/
def Call.event : Call → RendezvousEvent
  | .joinedLine chatId founded => .joined (hex chatId.toList) founded
  | .leftLine chatId reason => .left (hex chatId.toList) reason.1.text
  | .peerLine chatId peerPk entered => .peer (hex chatId.toList) (hex peerPk.toList) entered
  | .peersChangedLine chatId count => .peersChanged (hex chatId.toList) count.1
  | .fullLine chatId => .full (hex chatId.toList)
  | .packetLine chatId peerPk isPrivate payload =>
    .packet (hex chatId.toList) (hex peerPk.toList) isPrivate payload.1

/-- A line of the native side; those not built here go on with any text. -/
inductive NativeLine where
  | built (call : Call)
  | other (kind : LineKind) (rest : String)

def NativeLine.text : NativeLine → String
  | .built call => call.line.text
  | .other kind rest => kind.text ++ rest

def NativeLine.event : NativeLine → Option RendezvousEvent
  | .built call => some call.event
  | .other _ _ => none

end Tim2Tox.RendezvousTransport
