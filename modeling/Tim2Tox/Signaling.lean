import Mathlib.Algebra.Ring.Int.Defs
import Mathlib.Algebra.Ring.Nat
import Mathlib.Data.List.AList
import Tim2Tox.LabelledRuns

set_option autoImplicit false

/-!
# Signaling invites

`V2TIMSignalingManagerImpl` of one side: the invites it sent and the ones it received, the packets
of its friends and the notices its listeners get. A packet is parsed when it arrives and handled by
a task of the event thread; all tasks run in the order they were posted.
-/
namespace Tim2Tox.Signaling

/-- The bytes of a `std::string`. -/
abbrev Bytes : Type := List UInt8

def text (s : String) : Bytes := s.toList.map fun c => UInt8.ofNat c.toNat

/-- What is left of a string that went through `CString`, which gives out nothing of one beyond a
    million bytes. -/
def cString (s : Bytes) : Bytes := if 1000000 < s.length then [] else s.takeWhile (· ≠ 0)

/-! ## Packets -/

inductive SignalingType where
  | invite
  | accept
  | reject
  | cancel
  | timeout
  deriving DecidableEq

def SignalingType.code : SignalingType → UInt8
  | .invite => 1
  | .accept => 2
  | .reject => 3
  | .cancel => 4
  | .timeout => 5

def SignalingType.ofCode : UInt8 → Option SignalingType
  | 1 => some .invite
  | 2 => some .accept
  | 3 => some .reject
  | 4 => some .cancel
  | 5 => some .timeout
  | _ => none

structure SignalingPacket where
  type : SignalingType
  inviteID : Bytes
  data : Bytes := []
  timeout : ℕ := 0
  deriving DecidableEq

def littleEndian32 (n : ℕ) : Bytes :=
  [UInt8.ofNat n, UInt8.ofNat (n / 2 ^ 8), UInt8.ofNat (n / 2 ^ 16), UInt8.ofNat (n / 2 ^ 24)]

def readLittleEndian32 (data : Bytes) : ℕ :=
  (data.take 4).foldr (fun byte n => byte.toNat + 2 ^ 8 * n) 0

def bigEndian32 (n : ℕ) : Bytes := (littleEndian32 n).reverse

def readBigEndian32 (data : Bytes) : ℕ :=
  (data.take 4).foldl (fun n byte => 2 ^ 8 * n + byte.toNat) 0

def serializePacket (packet : SignalingPacket) : Bytes :=
  [packet.type.code] ++ littleEndian32 packet.inviteID.length ++ packet.inviteID ++
    littleEndian32 packet.data.length ++ packet.data ++ bigEndian32 packet.timeout

/-- A packet cut short or with a type that has no handler is none. -/
def parsePacket (data : Bytes) : Option SignalingPacket := do
  guard (13 ≤ data.length)
  let type ← SignalingType.ofCode (data.headD 0)
  let idLength := readLittleEndian32 (data.drop 1)
  guard (5 + idLength ≤ data.length)
  let inviteID := (data.drop 5).take idLength
  let offset := 5 + idLength
  guard (offset + 4 ≤ data.length)
  let dataLength := readLittleEndian32 (data.drop offset)
  guard (offset + 4 + dataLength ≤ data.length)
  let payload := (data.drop (offset + 4)).take dataLength
  guard (offset + 4 + dataLength + 4 ≤ data.length)
  let timeout := readBigEndian32 (data.drop (offset + 4 + dataLength))
  return { type, inviteID, data := payload, timeout }

/-! ## The manager -/

/-- An invite this side sent: to whom, and the deadline, 0 for none. -/
structure SignalingInviteInfo where
  friendNumber : ℕ
  deadline : ℕ
  deriving DecidableEq

structure ReceivedInviteInfo where
  inviter : ℕ
  deadline : ℕ
  deriving DecidableEq

inductive NoticeKind where
  | newInvitation (inviter : ℕ) (groupID data : Bytes)
  | accepted (invitee : ℕ) (data : Bytes)
  | rejected (invitee : ℕ) (data : Bytes)
  | cancelled (inviter : ℕ) (data : Bytes)
  | timedOut
  deriving DecidableEq

/-- What every listener is told, of which invite. -/
structure Notice where
  inviteID : Bytes
  kind : NoticeKind
  deriving DecidableEq

structure Manager where
  managerImpl : Option ℕ := none
  active : AList fun _ : Bytes => SignalingInviteInfo := ∅
  received : AList fun _ : Bytes => ReceivedInviteInfo := ∅
  uniqueIdCounter : ℕ := 0
  tasks : List (ℕ × SignalingPacket) := []
  notices : List Notice := []
  sent : List (ℕ × SignalingPacket) := []

inductive Reply where
  | success
  | userOffline
  | inviteNotFound
  deriving DecidableEq

/-- Where a send stops. -/
structure Route where
  friendNumber : Option ℕ
  toxReady : Bool
  online : Bool

namespace Manager

def notify (m : Manager) (inviteID : Bytes) (kind : NoticeKind) : Manager :=
  { m with notices := m.notices ++ [{ inviteID, kind }] }

def sendToxPacket (m : Manager) (friendNumber : ℕ) (packet : SignalingPacket) : Manager :=
  { m with sent := m.sent ++ [(friendNumber, packet)] }

def resetSessionState (m : Manager) : Manager := { m with active := ∅, received := ∅ }

def setManagerImpl (m : Manager) (managerImpl : Option ℕ) : Manager :=
  let m := if managerImpl ≠ m.managerImpl then m.resetSessionState else m
  { m with managerImpl }

def uniqueID (time counter : ℕ) : Bytes :=
  text "inv_" ++ text (toString time) ++ text "_" ++ text (toString counter)

def generateUniqueID (m : Manager) (time : ℕ) : Bytes × Manager :=
  (uniqueID time m.uniqueIdCounter, { m with uniqueIdCounter := m.uniqueIdCounter + 1 })

def deadlineAfter (now timeout : ℕ) : ℕ := if timeout > 0 then now + timeout * 1000 else 0

/-- The reply, the id returned and the state after. The id comes back with an error when only the
    online check failed. -/
def invite (m : Manager) (time now : ℕ) (route : Route) (data : Bytes) (onlineUserOnly : Bool)
    (timeout : ℤ) : Reply × Bytes × Manager :=
  if m.managerImpl.isNone then (.userOffline, [], m)
  else
    let (inviteID, m) := m.generateUniqueID time
    match route.friendNumber with
    | none => (.userOffline, [], m)
    | some friendNumber =>
      if onlineUserOnly && !route.toxReady then (.userOffline, [], m)
      else if onlineUserOnly && !route.online then (.userOffline, inviteID, m)
      else if !route.toxReady then (.userOffline, [], m)
      else
        let m := m.sendToxPacket friendNumber
          { type := .invite, inviteID, data := cString data, timeout := (timeout % 2 ^ 32).toNat }
        (.success, inviteID,
          { m with
            active := m.active.insert inviteID
              { friendNumber, deadline := deadlineAfter now timeout.toNat } })

/-- The group invite goes to every invitee that is a friend and is not recorded. -/
def inviteInGroup (m : Manager) (time : ℕ) (groupID data : Bytes) (invitees : List (Option ℕ))
    (timeout : ℤ) : Bytes × Manager :=
  let (inviteID, m) := m.generateUniqueID time
  let packet : SignalingPacket :=
    { type := .invite, inviteID,
      data := text "GID:" ++ cString groupID ++ text ";" ++ cString data,
      timeout := (timeout % 2 ^ 32).toNat }
  (inviteID, invitees.reduceOption.foldl (fun m friendNumber => m.sendToxPacket friendNumber packet) m)

/-- The timeout field of an answer is not set by the source; its reader ignores it. -/
def answer (type : SignalingType) (inviteID data : Bytes) : SignalingPacket :=
  { type, inviteID, data := cString data }

def cancel (m : Manager) (inviteID data : Bytes) : Reply × Manager :=
  match m.active.lookup (cString inviteID) with
  | none => (.inviteNotFound, m)
  | some info =>
    let m := m.sendToxPacket info.friendNumber (answer .cancel (cString inviteID) data)
    (.success, { m with active := m.active.erase (cString inviteID) })

def accept (m : Manager) (inviteID data : Bytes) : Reply × Manager :=
  match m.received.lookup (cString inviteID) with
  | some info =>
    let m := m.sendToxPacket info.inviter (answer .accept (cString inviteID) data)
    (.success, { m with received := m.received.erase (cString inviteID) })
  | none =>
    match m.active.lookup (cString inviteID) with
    | none => (.inviteNotFound, m)
    | some info =>
      let m := m.sendToxPacket info.friendNumber (answer .accept (cString inviteID) data)
      (.success, { m with active := m.active.erase (cString inviteID) })

def reject (m : Manager) (inviteID data : Bytes) : Reply × Manager :=
  match m.received.lookup (cString inviteID) with
  | some info =>
    let m := m.sendToxPacket info.inviter (answer .reject (cString inviteID) data)
    (.success, { m with received := m.received.erase (cString inviteID) })
  | none => (.inviteNotFound, m)

def due (now deadline : ℕ) : Bool := deadline ≠ 0 && now ≥ deadline

def expiredSent (m : Manager) (now : ℕ) : List (Bytes × ℕ) :=
  (m.active.entries.filter fun entry => due now entry.2.deadline).map fun entry =>
    (entry.1, entry.2.friendNumber)

def expiredReceived (m : Manager) (now : ℕ) : List Bytes :=
  (m.received.entries.filter fun entry => due now entry.2.deadline).map Sigma.fst

/-- The expired invites leave first, then their invitees are told, then the listeners. -/
def checkTimeouts (m : Manager) (now : ℕ) : Manager :=
  let expiredSent := m.expiredSent now
  let expiredReceived := m.expiredReceived now
  let m :=
    { m with
      active := expiredSent.foldl (fun map entry => map.erase entry.1) m.active
      received := expiredReceived.foldl (fun map id => map.erase id) m.received }
  let m := expiredSent.foldl
    (fun m entry => m.sendToxPacket entry.2 { type := .cancel, inviteID := entry.1 }) m
  (expiredSent.map Prod.fst ++ expiredReceived).foldl (fun m id => m.notify id .timedOut) m

/-! ## Packets of friends -/

/-- The group id before the first semicolon after the mark, and the data after it. -/
def splitGroup (data : Bytes) : Bytes × Bytes :=
  if (text "GID:").isPrefixOf data then
    let rest := data.drop 4
    let groupID := rest.takeWhile (· ≠ 59)
    if groupID.length < rest.length then (groupID, rest.drop (groupID.length + 1)) else (rest, data)
  else ([], data)

/-- The task posted for a packet. -/
def handle (m : Manager) (now friendNumber : ℕ) (packet : SignalingPacket) : Manager :=
  let inviteID := packet.inviteID
  match packet.type with
  | .invite =>
    let (groupID, data) := splitGroup packet.data
    let info : ReceivedInviteInfo :=
      { inviter := friendNumber, deadline := deadlineAfter now packet.timeout }
    { m with received := m.received.insert inviteID info }.notify inviteID
      (.newInvitation friendNumber (cString groupID) (cString data))
  | .accept =>
    { m with active := m.active.erase inviteID }.notify inviteID
      (.accepted friendNumber (cString packet.data))
  | .reject =>
    { m with active := m.active.erase inviteID }.notify inviteID
      (.rejected friendNumber (cString packet.data))
  | .cancel =>
    { m with received := m.received.erase inviteID }.notify inviteID
      (.cancelled friendNumber (cString packet.data))
  | .timeout =>
    match m.received.lookup inviteID with
    | none => m
    | some info =>
      if info.inviter ≠ friendNumber then m
      else { m with received := m.received.erase inviteID }.notify inviteID .timedOut

/-- The payload after the packet id. -/
def onToxMessage (m : Manager) (friendNumber : ℕ) (data : Bytes) : Manager :=
  match parsePacket data with
  | none => m
  | some packet =>
    if m.managerImpl.isNone then m else { m with tasks := m.tasks ++ [(friendNumber, packet)] }

def runTask (m : Manager) (now : ℕ) : Option Manager :=
  match m.tasks with
  | [] => none
  | (friendNumber, packet) :: tasks => some ({ m with tasks }.handle now friendNumber packet)

end Manager

/-! ## Runs -/

inductive Op where
  | setManagerImpl (managerImpl : Option ℕ)
  | resetSessionState
  | invite (time now : ℕ) (route : Route) (data : Bytes) (onlineUserOnly : Bool) (timeout : ℤ)
  | inviteInGroup (time : ℕ) (groupID data : Bytes) (invitees : List (Option ℕ)) (timeout : ℤ)
  | cancel (inviteID data : Bytes)
  | accept (inviteID data : Bytes)
  | reject (inviteID data : Bytes)
  | checkTimeouts (now : ℕ)
  | onToxMessage (friendNumber : ℕ) (data : Bytes)
  | task (now : ℕ)

def Manager.step (m : Manager) : Op → Option Manager
  | .setManagerImpl managerImpl => some (m.setManagerImpl managerImpl)
  | .resetSessionState => some m.resetSessionState
  | .invite time now route data onlineUserOnly timeout =>
    some (m.invite time now route data onlineUserOnly timeout).2.2
  | .inviteInGroup time groupID data invitees timeout =>
    some (m.inviteInGroup time groupID data invitees timeout).2
  | .cancel inviteID data => some (m.cancel inviteID data).2
  | .accept inviteID data => some (m.accept inviteID data).2
  | .reject inviteID data => some (m.reject inviteID data).2
  | .checkTimeouts now => some (m.checkTimeouts now)
  | .onToxMessage friendNumber data => some (m.onToxMessage friendNumber data)
  | .task now => m.runTask now

end Tim2Tox.Signaling
