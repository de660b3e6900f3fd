import Tim2Tox.RendezvousGroups

set_option autoImplicit false

/-!
# Toxcore callbacks of the rendezvous registry

Self and peer events, kicks, packet budgets and the line buffer. A callback
reaches the cell that holds its group number unless that cell is retiring; what
it does there is a function on cells that also returns the lines to publish.
-/
namespace Tim2Tox.RendezvousGroups
open RendezvousCodec

/-- The cell a callback of group `n` reaches. -/
def activeCell (r : Registry) (n : GroupNumber) : Option (ChatIdHex × Cell) :=
  (findByGroup r n).filter fun entry => entry.2.state ≠ .retiring

/-- A callback without effect on anything but its cell. -/
def callback (r : Registry) (n : GroupNumber) (f : Cell → Cell × List Line) :
    Registry × List Line :=
  match activeCell r n with
  | none => (r, [])
  | some (id, c) => ({ r with cells := r.cells.insert id (f c).1 }, (f c).2)

def Cell.selfJoin (now : Ms) (c : Cell) : Cell × List Line :=
  ({ c with selfJoined := true, state := .joined, stateSinceMs := now, retries := 0,
            announced := true },
    if c.announced then [] else [.joined c.chatIdHex c.founded])

def onSelfJoin (r : Registry) (n : GroupNumber) (now : Ms) : Registry × List Line :=
  callback r n (Cell.selfJoin now)

def consumeBudget (budget : Budget) (now : Ms) (maxCount maxBytes bytes : ℕ) : Budget × Bool :=
  let budget := if now - budget.windowStartMs ≥ kBudgetWindowMs then
    { windowStartMs := now, packets := 0, bytes := 0 } else budget
  if budget.packets + 1 > maxCount ∨ budget.bytes + bytes > maxBytes then (budget, false)
  else ({ budget with packets := budget.packets + 1, bytes := budget.bytes + bytes }, true)

/-- `PeerEventLocked`: one line an event, one summary line for a burst. -/
def Cell.peerEvent (pk : PeerPkHex) (entered : Bool) (now : Ms) (c : Cell) : Cell × List Line :=
  let (budget, ok) := consumeBudget c.eventBudget now kPeerEventsPerWindow (2 ^ 64 - 1) 0
  if ok then ({ c with eventBudget := budget, coalescing := false }, [.peer c.chatIdHex pk entered])
  else ({ c with eventBudget := budget, coalescing := true },
    if c.coalescing then [] else [.peersChanged c.chatIdHex c.peers.size])

/-- A confirmed peer makes the join real even before the self join. -/
def Cell.confirmPeer (peer : PeerId) (pk : PeerPkHex) (now : Ms) (c : Cell) : Cell :=
  let c := { c with peers := c.peers.insert peer pk, hadPeers := true, announced := true }
  if c.state = .joining then { c with state := .joined, stateSinceMs := now, retries := 0 } else c

def Cell.peerJoin (peer : PeerId) (pk : PeerPkHex) (now : Ms) (c : Cell) : Cell × List Line :=
  if pk = "" then (c, [])
  else
    let (c', lines) := (c.confirmPeer peer pk now).peerEvent pk true now
    (c', (if c.announced then [] else [.joined c.chatIdHex c.founded]) ++ lines)

def onPeerJoin (r : Registry) (n : GroupNumber) (peer : PeerId) (pk : PeerPkHex) (now : Ms) :
    Registry × List Line :=
  callback r n (Cell.peerJoin peer pk now)

def Cell.dropPeer (peer : PeerId) (now : Ms) (c : Cell) : Cell :=
  let peers := c.peers.erase peer
  { c with peers, emptySinceMs := if peers.isEmpty then now else c.emptySinceMs }

/-- When we dropped off ourselves toxcore reports every peer as gone: no line. -/
def Cell.peerExit (peer : PeerId) (selfDisconnected : Bool) (now : Ms) (c : Cell) :
    Cell × List Line :=
  match c.peers[peer]? with
  | none => (c, [])
  | some pk =>
    if selfDisconnected then (c.dropPeer peer now, [])
    else (c.dropPeer peer now).peerEvent pk false now

def onPeerExit (r : Registry) (n : GroupNumber) (peer : PeerId) (selfDisconnected : Bool)
    (now : Ms) : Registry × List Line :=
  callback r n (Cell.peerExit peer selfDisconnected now)

/-- A join failure or a kick: the leave is owed and the back-off starts now. -/
def Cell.expelled (reason : Reason) (now : Ms) (c : Cell) : Cell :=
  Cell.enterBackoff now
    { c with pendingLeave := true, leaveReason := reason, pendingJoin := false
             pendingFound := false }

def Cell.joinFail (peerLimit : Bool) (now : Ms) (c : Cell) : Cell × List Line :=
  (c.expelled (if peerLimit then .full else .failed) now,
    if peerLimit then [.full c.chatIdHex] else [])

def onJoinFail (r : Registry) (n : GroupNumber) (peerLimit : Bool) (now : Ms) :
    Registry × List Line :=
  callback r n (Cell.joinFail peerLimit now)

def Cell.kickedSelf (now : Ms) (c : Cell) : Cell × List Line := (c.expelled .kicked now, [])

def onKickedSelf (r : Registry) (n : GroupNumber) (now : Ms) : Registry × List Line :=
  callback r n (Cell.kickedSelf now)

/-! ## Packets -/

inductive PacketVerdict where
  | emit (line : Line) | dropBudget | dropUnknownPeer | dropTooLarge
  deriving DecidableEq, Repr

def PacketVerdict.lines : PacketVerdict → List Line
  | .emit line => [line]
  | _ => []

def PacketVerdict.drops : PacketVerdict → ℕ
  | .emit _ => 0
  | _ => 1

/-- A packet that names its sender may be the first we hear of that peer. -/
def Cell.learnPeer (peer : PeerId) (pk : PeerPkHex) (c : Cell) : Cell :=
  if pk ≠ "" ∧ !c.peers.contains peer then { c with peers := c.peers.insert peer pk } else c

def Cell.senderPk (peer : PeerId) (pk : PeerPkHex) (c : Cell) : PeerPkHex :=
  if pk = "" then c.peers.getD peer "" else pk

def Cell.packet (peer : PeerId) (pk : PeerPkHex) (isPrivate : Bool) (payload : List UInt8)
    (now : Ms) (c : Cell) : Cell × PacketVerdict :=
  if payload.length > kMaxPayloadBytes then (c, .dropTooLarge)
  else
    let sender := c.senderPk peer pk
    let c := c.learnPeer peer pk
    if sender = "" then (c, .dropUnknownPeer)
    else
      let (budget, ok) := consumeBudget (c.packetBudget.getD sender {}) now
        kPeerPacketsPerWindow kPeerBytesPerWindow payload.length
      ({ c with packetBudget := c.packetBudget.insert sender budget },
        if ok then .emit (.packet c.chatIdHex sender isPrivate payload) else .dropBudget)

def onPacket (r : Registry) (n : GroupNumber) (peer : PeerId) (pk : PeerPkHex) (isPrivate : Bool)
    (payload : List UInt8) (now : Ms) : Registry × PacketVerdict :=
  match activeCell r n with
  | none => ({ r with drops := r.drops + 1 }, .dropUnknownPeer)
  | some (id, c) =>
    let (c', verdict) := c.packet peer pk isPrivate payload now
    ({ r with cells := r.cells.insert id c', drops := r.drops + verdict.drops }, verdict)

/-! ## Line buffer -/

def bufferLine (r : Registry) (line : Line) : Registry × Bool :=
  if r.bufferedLines.length ≥ kMaxBufferedLines then ({ r with drops := r.drops + 1 }, false)
  else ({ r with bufferedLines := r.bufferedLines ++ [line] }, true)

def takeBufferedLines (r : Registry) : Registry × List Line :=
  ({ r with bufferedLines := [] }, r.bufferedLines)

end Tim2Tox.RendezvousGroups
