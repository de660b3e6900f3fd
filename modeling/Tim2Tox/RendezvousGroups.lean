import Tim2Tox.RendezvousCodec

set_option autoImplicit false

/-!
# The rendezvous registry

`RendezvousGroups` is bookkeeping and planner; it performs no Tox call. Each
public operation is one critical section of its mutex and is a function on the
registry here. What an operation does to one cell is a function on cells, and
the registry applies it under the cell's key.

Times are the 64-bit milliseconds of the source, with its wrapping
subtraction. Generation and attempt are 64-bit counters there and naturals
here: they are only bumped and compared.
-/
namespace Tim2Tox.RendezvousGroups
open RendezvousCodec

abbrev GroupNumber := UInt32
abbrev PeerId := UInt32
abbrev Ms := UInt64

/-- `UINT32_MAX`: the cell holds no group. -/
def noGroup : GroupNumber := 0xFFFFFFFF

def kMaxPayloadBytes : ℕ := 1200 - 6
def kJoinToFoundMs : Ms := 30000
def kStaleMs : Ms := 90000
def kBackoffMs : Ms := 15000
def kLeaveRetryMs : Ms := 5000
def kRetryWindowMs : Ms := 600000
def kUnavailableMs : Ms := 600000
def kMaxRetriesPerWindow : ℕ := 3
def kBudgetWindowMs : Ms := 10000
def kPeerPacketsPerWindow : ℕ := 6
def kPeerBytesPerWindow : ℕ := 6 * 1024
def kPeerEventsPerWindow : ℕ := 60
def kMaxBufferedLines : ℕ := 64

inductive State where
  | joining | joined | backoff | unavailable | retiring
  deriving DecidableEq, Repr

inductive ActionKind where
  | join | found | leave
  deriving DecidableEq, Repr

structure Action where
  kind : ActionKind
  chatIdHex : ChatIdHex
  seed : Seed := Vector.replicate 32 0
  chatId : ChatId := Vector.replicate 32 0
  name : String := ""
  nick : String := ""
  groupNumber : GroupNumber := noGroup
  reason : Reason := .unset
  generation : ℕ := 0
  attempt : ℕ := 0
  deriving DecidableEq, Repr

structure Budget where
  windowStartMs : Ms := 0
  packets : ℕ := 0
  bytes : ℕ := 0
  deriving DecidableEq, Repr

structure Cell where
  seed : Seed
  chatId : ChatId
  chatIdHex : ChatIdHex
  name : String
  nick : String
  state : State := .joining
  stateSinceMs : Ms := 0
  groupNumber : GroupNumber := noGroup
  pendingJoin : Bool := true
  pendingFound : Bool := false
  pendingLeave : Bool := false
  leaveNotBeforeMs : Ms := 0
  leaveReason : Reason := .unset
  leaveForgets : Bool := false
  rejoinAfterRetire : Bool := false
  retireReason : Reason := .unset
  stateBeforeRetire : State := .joining
  attempt : ℕ := 0
  founded : Bool := false
  selfJoined : Bool := false
  announced : Bool := false
  hadPeers : Bool := false
  emptySinceMs : Ms := 0
  peers : Std.TreeMap PeerId PeerPkHex := ∅
  packetBudget : Std.TreeMap PeerPkHex Budget := ∅
  eventBudget : Budget := {}
  coalescing : Bool := false
  retries : ℕ := 0
  retryWindowStartMs : Ms := 0

structure Convention where
  namePrefix : String := "toxee-nearby/v1/"
  seedPrefix : String := "toxee/nearby/v1|"
  deriving DecidableEq, Repr

structure Registry where
  convention : Convention := {}
  accepting : Bool := false
  generation : ℕ := 1
  nextAttempt : ℕ := 1
  inflight : ℕ := 0
  drops : ℕ := 0
  cells : Std.TreeMap ChatIdHex Cell := ∅
  zombies : Std.TreeMap GroupNumber ChatIdHex := ∅
  retiringOrphans : Std.TreeMap GroupNumber ChatIdHex := ∅
  bufferedLines : List Line := []
  /-- The snapshot `Owns` reads; only `publishOwned` writes it. -/
  owned : Std.TreeSet GroupNumber := ∅

/-! ## Owned snapshot -/

def ownedNumbers (r : Registry) : List GroupNumber :=
  (r.cells.toList.map fun entry => entry.2.groupNumber).filter (· ≠ noGroup) ++
    r.zombies.keys ++ r.retiringOrphans.keys

def publishOwned (r : Registry) : Registry :=
  { r with owned := Std.TreeSet.ofList (ownedNumbers r) }

def owns (r : Registry) (n : GroupNumber) : Bool := r.owned.contains n

/-! ## Admission and lifecycle -/

def setAccepting (r : Registry) (accepting : Bool) : Registry := { r with accepting }

def bumpGeneration (r : Registry) : Registry := { r with generation := r.generation + 1 }

def beginInflight (r : Registry) : Registry := { r with inflight := r.inflight + 1 }

def endInflight (r : Registry) : Registry := { r with inflight := r.inflight - 1 }

def clear (r : Registry) : Registry :=
  publishOwned { r with
    cells := ∅, zombies := ∅, retiringOrphans := ∅, bufferedLines := [], accepting := false }

/-! ## Client requests -/

inductive JoinReply where
  | refused | accepted | present
  deriving DecidableEq, Repr

def newCell (attempt : ℕ) (seed : Seed) (chatId : ChatId) (name nick : String) (now : Ms) : Cell :=
  { seed, chatId, chatIdHex := hex chatId.toList, name, nick, attempt,
    state := .joining, stateSinceMs := now, pendingJoin := true, retryWindowStartMs := now }

/-- A rejoin of a cell whose group toxcore still has to delete: admitted after
    retirement. -/
def Cell.deferRejoin (c : Cell) : Cell := { c with rejoinAfterRetire := true, leaveForgets := false }

/-- The chat id of an admissible join request. `derive` is toxcore's seeded
    keypair; a request it cannot derive is refused like a bad nick. -/
def joinTarget (derive : Seed → Option ChatId) (seed : Seed) (name nick : String) : Option ChatId :=
  if name.isEmpty || !isValidNick nick then none else derive seed

def requestJoin (derive : Seed → Option ChatId) (r : Registry) (seed : Seed) (name nick : String)
    (now : Ms) : Registry × JoinReply :=
  match joinTarget derive seed name nick with
  | none => (r, .refused)
  | some chatId =>
    let id := hex chatId.toList
    if !r.accepting then (r, .refused)
    else match r.cells[id]? with
      | some c =>
        if c.state ≠ .retiring then (r, .present)
        else ({ r with cells := r.cells.insert id c.deferRejoin }, .accepted)
      | none =>
        ({ r with
            nextAttempt := r.nextAttempt + 1
            cells := r.cells.insert id (newCell r.nextAttempt seed chatId name nick now) }, .accepted)

/-- What a client leave makes of the cell; `none` when it is erased at once. -/
def Cell.requestLeave (now : Ms) (c : Cell) : Option Cell :=
  let c := { c with
    pendingJoin := false, pendingFound := false, leaveForgets := true, rejoinAfterRetire := false }
  if c.state = .retiring then some c
  else
    let c := { c with leaveReason := .left, leaveNotBeforeMs := 0, stateSinceMs := now }
    -- Nothing to leave in toxcore yet: a join still in flight finds the cell gone.
    if c.groupNumber = noGroup then none else some { c with pendingLeave := true }

/-- The snapshot is republished only on the path that erased the cell. -/
def requestLeave (r : Registry) (id : ChatIdHex) (now : Ms) : Registry × Bool :=
  match r.cells[id]? with
  | none => (r, false)
  | some c =>
    match c.requestLeave now with
    | none => (publishOwned { r with cells := r.cells.erase id }, true)
    | some c' => ({ r with cells := r.cells.insert id c' }, true)

/-- The ids are read in one critical section and left one by one after it. -/
def requestLeaveAll (r : Registry) (now : Ms) : Registry × ℕ :=
  r.cells.keys.foldl (fun (acc : Registry × ℕ) id =>
    let (r', ok) := requestLeave acc.1 id now
    (r', if ok then acc.2 + 1 else acc.2)) (r, 0)

/-! ## Planner -/

def Cell.enterBackoff (now : Ms) (c : Cell) : Cell :=
  let c := if now - c.retryWindowStartMs > kRetryWindowMs then
      { c with retryWindowStartMs := now, retries := 0 } else c
  let retries := c.retries + 1
  { c with
    retries, selfJoined := false, announced := false, founded := false, hadPeers := false
    peers := ∅, packetBudget := ∅
    state := if retries > kMaxRetriesPerWindow then .unavailable else .backoff
    stateSinceMs := now }

/-- Step 1 of `Plan`: the timers of a cell that owes nothing. -/
def Cell.timers (now : Ms) (c : Cell) : Cell :=
  if c.pendingLeave || c.pendingJoin || c.pendingFound then c
  else match c.state with
    | .joining =>
      -- Nobody answered: leave the empty join, the found follows its retirement.
      if c.groupNumber ≠ noGroup ∧ !c.selfJoined ∧ c.peers.isEmpty ∧
          now - c.stateSinceMs ≥ kJoinToFoundMs then
        { c with pendingLeave := true, leaveReason := .refound, stateSinceMs := now }
      else c
    | .joined =>
      if c.hadPeers ∧ c.peers.isEmpty ∧ now - c.emptySinceMs ≥ kStaleMs then
        Cell.enterBackoff now { c with pendingLeave := true, leaveReason := .stale }
      else c
    | .backoff => if now - c.stateSinceMs ≥ kBackoffMs then { c with pendingJoin := true } else c
    | .unavailable =>
      if now - c.stateSinceMs ≥ kUnavailableMs then
        { c with retries := 0, retryWindowStartMs := now, pendingJoin := true }
      else c
    | .retiring => c

/-- The leave action `Plan` emits for a cell that owes a leave. -/
def Cell.leaveAction (generation : ℕ) (c : Cell) : Action :=
  { kind := .leave, chatIdHex := c.chatIdHex, groupNumber := c.groupNumber
    reason := if c.leaveReason = .unset then .left else c.leaveReason
    generation, attempt := c.attempt }

/-- The join or found action `Plan` emits; a pending join goes first. -/
def Cell.startAction (generation : ℕ) (c : Cell) : Action :=
  { kind := if c.pendingJoin then .join else .found, chatIdHex := c.chatIdHex, seed := c.seed
    chatId := c.chatId, name := c.name, nick := c.nick, generation, attempt := c.attempt }

/-- Step 2 of `Plan`. A leave is the only action of its cell in a batch; a
    failed one is owed again only after its delay, and nothing new starts for
    the cell meanwhile. -/
def Cell.emit (accepting : Bool) (generation : ℕ) (blocked : Bool) (now : Ms) (c : Cell) :
    Cell × Option Action :=
  if c.pendingLeave then
    if now < c.leaveNotBeforeMs then (c, none)
    else
      ({ c with leaveNotBeforeMs := 0, pendingLeave := false }, some (c.leaveAction generation))
  else if !accepting || blocked then (c, none)
  else if c.pendingJoin || c.pendingFound then
    ({ c with
        state := if c.pendingJoin then .joining else c.state
        pendingJoin := false, pendingFound := false, stateSinceMs := now },
      some (c.startAction generation))
  else (c, none)

def Cell.plan (accepting : Bool) (generation : ℕ) (blocked : Bool) (now : Ms) (c : Cell) :
    Cell × Option Action :=
  if c.state = .retiring then (c, none) else (c.timers now).emit accepting generation blocked now

/-- Chat ids whose previous group still exists in toxcore as a retiring orphan. -/
def blocked (r : Registry) (id : ChatIdHex) : Bool :=
  r.retiringOrphans.toList.any fun entry => entry.2 = id

def planCell (r : Registry) (now : Ms) (c : Cell) : Cell × Option Action :=
  c.plan r.accepting r.generation (blocked r c.chatIdHex) now

def plan (r : Registry) (now : Ms) : Registry × List Action :=
  ({ r with cells := r.cells.map fun _ c => (planCell r now c).1 },
    r.cells.toList.filterMap fun entry => (planCell r now entry.2).2)

/-! ## Reports of the driver -/

/-- A result belongs to the attempt it was issued for, in the generation it
    was planned under. -/
def Cell.awaits (generation generation' attempt : ℕ) (c : Cell) : Bool :=
  generation = generation' && c.attempt = attempt && c.state ≠ .retiring

def Cell.joinIssued (n : GroupNumber) (ok : Bool) (now : Ms) (c : Cell) : Cell :=
  if ok && n ≠ noGroup then
    { c with
      groupNumber := n, state := .joining, stateSinceMs := now
      founded := false, announced := false, selfJoined := false }
  else Cell.enterBackoff now { c with groupNumber := noGroup }

def Cell.foundIssued (n : GroupNumber) (ok : Bool) (now : Ms) (c : Cell) : Cell :=
  if ok && n ≠ noGroup then
    { c with
      groupNumber := n, state := .joined, stateSinceMs := now
      founded := true, selfJoined := true, announced := true }
  else Cell.enterBackoff now { c with groupNumber := noGroup }

def onJoinIssued (r : Registry) (id : ChatIdHex) (n : GroupNumber) (ok : Bool) (now : Ms)
    (generation attempt : ℕ) : Registry × Bool :=
  match r.cells[id]? with
  | none => (r, false)
  | some c =>
    if c.awaits r.generation generation attempt then
      (publishOwned { r with cells := r.cells.insert id (c.joinIssued n ok now) }, true)
    else (r, false)

/-- Like `onJoinIssued`, but also refused while a leave is owed: the found must
    not overwrite the group the cell still holds. -/
def onFoundIssued (r : Registry) (id : ChatIdHex) (n : GroupNumber) (ok : Bool) (now : Ms)
    (generation attempt : ℕ) : Registry × Bool :=
  match r.cells[id]? with
  | none => (r, false)
  | some c =>
    if c.awaits r.generation generation attempt && !c.pendingLeave then
      (publishOwned { r with cells := r.cells.insert id (c.foundIssued n ok now) }, true)
    else (r, false)

/-- Whether `FinishRetireLocked` starts a fresh attempt. -/
def Cell.renews (c : Cell) : Bool :=
  c.rejoinAfterRetire || (!(c.leaveForgets || c.retireReason = .left) && c.retireReason = .refound)

/-- `FinishRetireLocked`: the deferred outcome of a leave, `none` when the cell
    is forgotten. -/
def Cell.finishRetire (nextAttempt : ℕ) (now : Ms) (c : Cell) : Option Cell :=
  let reason := c.retireReason
  let before := c.stateBeforeRetire
  let c := { c with groupNumber := noGroup, retireReason := .unset }
  if c.rejoinAfterRetire then
    some { c with
      rejoinAfterRetire := false, leaveForgets := false, state := .joining, pendingJoin := true
      attempt := nextAttempt, retries := 0, retryWindowStartMs := now, stateSinceMs := now }
  else if c.leaveForgets || reason = .left then none
  else if reason = .refound then
    some { c with
      state := .joining, pendingFound := true, attempt := nextAttempt, stateSinceMs := now }
  else if before = .backoff ∨ before = .unavailable then
    some { c with state := before, stateSinceMs := now }
  else some (Cell.enterBackoff now c)

/-- `finishRetire` applied under the cell's key. -/
def finishRetire (r : Registry) (id : ChatIdHex) (now : Ms) (c : Cell) : Registry :=
  { r with
    nextAttempt := if c.renews then r.nextAttempt + 1 else r.nextAttempt
    cells := match c.finishRetire r.nextAttempt now with
      | none => r.cells.erase id
      | some c' => r.cells.insert id c' }

/-- The left cell: its peers and pending flags are gone, its group is kept. -/
def Cell.leaveIssued (reason : Reason) (now : Ms) (c : Cell) : Cell :=
  { c with
    peers := ∅, packetBudget := ∅, selfJoined := false, announced := false
    pendingLeave := false, pendingJoin := false, pendingFound := false
    retireReason := reason, stateBeforeRetire := c.state, stateSinceMs := now }

def onLeaveIssued (r : Registry) (id : ChatIdHex) (reason : Reason) (now : Ms) (n : GroupNumber) :
    Registry :=
  match r.cells[id]? with
  | none => r
  | some c =>
    if c.groupNumber ≠ n then r
    else
      let c := c.leaveIssued reason now
      if c.groupNumber = noGroup then publishOwned (finishRetire r id now c)
      else publishOwned { r with cells := r.cells.insert id { c with state := .retiring } }

def noteRetiringOrphan (r : Registry) (n : GroupNumber) (id : ChatIdHex) : Registry :=
  publishOwned { r with retiringOrphans := r.retiringOrphans.insert n id }

def retiring (r : Registry) : List (GroupNumber × ChatIdHex) :=
  (r.cells.toList.filter fun entry => entry.2.state = .retiring).map
      (fun entry => (entry.2.groupNumber, entry.1)) ++
    r.retiringOrphans.toList

def dropOrphan (r : Registry) (id : ChatIdHex) (n : GroupNumber) : Registry :=
  if r.retiringOrphans[n]? = some id then
    { r with retiringOrphans := r.retiringOrphans.erase n } else r

def onRetired (r : Registry) (id : ChatIdHex) (n : GroupNumber) (now : Ms) : Registry :=
  let r := dropOrphan r id n
  publishOwned <| match r.cells[id]? with
    | none => r
    | some c => if c.state = .retiring ∧ c.groupNumber = n then finishRetire r id now c else r

/-- The group number and its ownership are kept; the leave is owed again. -/
def Cell.leaveFailed (now : Ms) (c : Cell) : Cell :=
  { c with pendingLeave := true, leaveNotBeforeMs := now + kLeaveRetryMs }

def onLeaveFailed (r : Registry) (id : ChatIdHex) (now : Ms) : Registry :=
  match r.cells[id]? with
  | none => r
  | some c => { r with cells := r.cells.insert id (c.leaveFailed now) }

def noteZombie (r : Registry) (n : GroupNumber) (id : ChatIdHex) : Registry :=
  publishOwned { r with zombies := r.zombies.insert n id }

def forgetZombie (r : Registry) (n : GroupNumber) : Registry :=
  publishOwned { r with zombies := r.zombies.erase n }

def takeZombies (r : Registry) : Registry × List (GroupNumber × ChatIdHex) :=
  (publishOwned { r with zombies := ∅ }, r.zombies.toList)

/-! ## Queries -/

/-- The cell that holds `n`, with its key. -/
def findByGroup (r : Registry) (n : GroupNumber) : Option (ChatIdHex × Cell) :=
  if n = noGroup then none else r.cells.toList.find? fun entry => entry.2.groupNumber = n

def retiringChatIdOf (r : Registry) (n : GroupNumber) : Option ChatIdHex :=
  match r.retiringOrphans[n]? with
  | some id => some id
  | none => ((findByGroup r n).filter fun entry => entry.2.state = .retiring).map Prod.fst

def attemptOf (r : Registry) (id : ChatIdHex) : Option ℕ := r.cells[id]?.map Cell.attempt

def stateOf (r : Registry) (id : ChatIdHex) : Option State := r.cells[id]?.map Cell.state

/-- A start action for the sample cell. -/
def sampleAction (kind : ActionKind) (generation attempt : ℕ) : Action :=
  { kind, chatIdHex := sampleId, seed := sampleSeed, chatId := sampleChatId, name := "n"
    nick := "0123abcd", generation, attempt }

/-- A leave action for group 7 of the sample cell. -/
def sampleLeave (reason : Reason) (generation attempt : ℕ) : Action :=
  { kind := .leave, chatIdHex := sampleId, groupNumber := 7, reason, generation, attempt }

end Tim2Tox.RendezvousGroups
