import Mathlib.Algebra.Ring.Nat
import Mathlib.Tactic.Common

set_option autoImplicit false

/-!
# Rendezvous codec

The pure half of the rendezvous groups: identifiers, nick rule, hex encoding
and the event lines. The key derivation itself is toxcore's and stays a
parameter of the registry.
-/
namespace Tim2Tox.RendezvousCodec

abbrev Seed := Vector UInt8 32
abbrev ChatId := Vector UInt8 32
abbrev ChatIdHex := String
abbrev PeerPkHex := String

def kNickLength : ℕ := 8

def kDigits : List Char :=
  ['0', '1', '2', '3', '4', '5', '6', '7', '8', '9', 'a', 'b', 'c', 'd', 'e', 'f']

def hexByte (b : UInt8) : List Char :=
  [kDigits.getD (b >>> 4).toNat '0', kDigits.getD (b &&& 0x0F).toNat '0']

/-- `Hex`: two lower-case digits a byte, high nibble first. -/
def hex (bytes : List UInt8) : String := String.ofList (bytes.flatMap hexByte)

/-- `IsValidNick`: exactly `kNickLength` lower-case hex characters. -/
def isValidNick (nick : String) : Bool :=
  nick.length == kNickLength &&
    nick.toList.all fun c => ('0' ≤ c && c ≤ '9') || ('a' ≤ c && c ≤ 'f')

/-- Why a group is left. `unset` is the empty string a cell starts with. -/
inductive Reason where
  | unset | kicked | failed | stale | left | full | refound
  deriving DecidableEq, Repr

def Reason.text : Reason → String
  | .unset => ""
  | .kicked => "kicked"
  | .failed => "failed"
  | .stale => "stale"
  | .left => "left"
  | .full => "full"
  | .refound => "refound"

/-- The event lines, one constructor a builder; `Line.text` is what is published. -/
inductive Line where
  | joined (chatIdHex : ChatIdHex) (founded : Bool)
  | left (chatIdHex : ChatIdHex) (reason : Reason)
  | peer (chatIdHex : ChatIdHex) (peerPkHex : PeerPkHex) (joined : Bool)
  | peersChanged (chatIdHex : ChatIdHex) (count : ℕ)
  | full (chatIdHex : ChatIdHex)
  | packet (chatIdHex : ChatIdHex) (peerPkHex : PeerPkHex) (isPrivate : Bool) (payload : List UInt8)
  deriving DecidableEq, Repr

def Line.text : Line → String
  | .joined id founded => "rendezvous_joined:" ++ id ++ ":" ++ (if founded then "1" else "0")
  | .left id reason => "rendezvous_left:" ++ id ++ ":" ++ reason.text
  | .peer id pk entered =>
    "rendezvous_peer:" ++ id ++ ":" ++ pk ++ ":" ++ (if entered then "join" else "exit")
  | .peersChanged id count => "rendezvous_peers_changed:" ++ id ++ ":" ++ toString count
  | .full id => "rendezvous_full:" ++ id
  | .packet id pk isPrivate payload =>
    "rendezvous_packet:" ++ id ++ ":" ++ pk ++ ":" ++ (if isPrivate then "p" else "b") ++ ":" ++
      hex payload

/-- The chat id a line is about. -/
def Line.chatIdHex : Line → ChatIdHex
  | .joined id _ | .left id _ | .peer id _ _ | .peersChanged id _ | .full id | .packet id _ _ _ => id

def Line.isJoined : Line → Bool
  | .joined .. => true
  | _ => false

def Line.isLeft : Line → Bool
  | .left .. => true
  | _ => false

/-- The lines that are about peers of a joined cell. -/
def Line.isTraffic : Line → Bool
  | .peer .. | .packet .. => true
  | _ => false

/-! ## A concrete cell

The first ed25519 key pair of RFC 8032: the seed of a cell and the chat id
that the derivation gives for it. -/

def sampleSeed : Seed :=
  #v[0x9d, 0x61, 0xb1, 0x9d, 0xef, 0xfd, 0x5a, 0x60, 0xba, 0x84, 0x4a, 0xf4, 0x92, 0xec, 0x2c, 0xc4,
    0x44, 0x49, 0xc5, 0x69, 0x7b, 0x32, 0x69, 0x19, 0x70, 0x3b, 0xac, 0x03, 0x1c, 0xae, 0x7f, 0x60]

def sampleChatId : ChatId :=
  #v[0xd7, 0x5a, 0x98, 0x01, 0x82, 0xb1, 0x0a, 0xb7, 0xd5, 0x4b, 0xfe, 0xd3, 0xc9, 0x64, 0x07, 0x3a,
    0x0e, 0xe1, 0x72, 0xf3, 0xda, 0xa6, 0x23, 0x25, 0xaf, 0x02, 0x1a, 0x68, 0xf7, 0x07, 0x51, 0x1a]

/-- The derivation, known on the sample seed. -/
def sampleDerive (seed : Seed) : Option ChatId := if seed = sampleSeed then some sampleChatId else none

def sampleId : ChatIdHex := hex sampleChatId.toList

end Tim2Tox.RendezvousCodec
