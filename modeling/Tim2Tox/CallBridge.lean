import Tim2Tox.KeyedTables
import Tim2Tox.LabelledRuns

set_option autoImplicit false

/-!
# The call bridge

Calls between signalling and the media service, as `CallBridgeService` keeps them: the table of
active calls, teardowns that are retried a bounded number of times, and invitations rejected as busy.
A section that waits for another service is a list entry; code of the embedder that runs inside a
callback comes before the rest of the function that called it, which is a frame of the stack.
-/
namespace Tim2Tox.CallBridge
open KeyedTables LabelledRuns

inductive CallState where
  | idle
  | calling
  | ringing
  | inCall
  | ended
  deriving DecidableEq

inductive EndReason where
  | reject
  | timeout
  | cancel
  | hangup
  | lineBusy
  deriving DecidableEq

/-- A call; `object` tells it from a later one with the same id. -/
structure CallInfo where
  object : ℕ := 0
  inviteID : String
  inviter : String
  groupID : Option String := none
  inviteeList : List String
  data : String
  state : CallState := .idle
  friendNumber : Option ℤ := none
  avLegStarted : Bool := false
  deriving DecidableEq

def noFriendNumber : ℤ := 0xFFFFFFFF

def isValidFriendNumber : Option ℤ → Bool
  | none => false
  | some friendNumber => 0 ≤ friendNumber && friendNumber ≠ noFriendNumber

def lookupFriendNumber (numbers : String → ℤ) (userId : String) : Option ℤ :=
  if userId = "" then none
  else if isValidFriendNumber (some (numbers userId)) then some (numbers userId) else none

def lineBusyRejectData : String := "\x7b\"businessID\":\"av_call\",\"line_busy\":\"line_busy\"\x7d"

/-- What a teardown asks for: `_tryRejectInvite`, `_tryCancelInvite`, `_tryEndAvLeg`. -/
inductive Action where
  | reject (inviteID : String) (data : Option String)
  | cancel (inviteID : String)
  | avEnd (inviteID : String) (friendNumber : ℤ)
  deriving DecidableEq

inductive TeardownKey where
  | reject (inviteID : String)
  | cancel (inviteID : String)
  | avEnd (inviteID : String) (friendNumber : ℤ)
  deriving DecidableEq

def Action.key : Action → TeardownKey
  | .reject inviteID _ => .reject inviteID
  | .cancel inviteID => .cancel inviteID
  | .avEnd inviteID friendNumber => .avEnd inviteID friendNumber

/-- `_PendingTeardown`: an attempt is under way, or the timer for the next one. -/
structure PendingTeardown where
  object : ℕ
  action : Action
  attempts : ℕ := 0
  timer : Bool := false
  deriving DecidableEq

def maxTeardownAttempts : ℕ := 6

/-- `_teardownRetryDelays`, in seconds. -/
def teardownRetryDelays : List ℕ := [1, 2, 3, 5, 8]

/-- `_busyTombstoneTtl`, in microseconds. -/
def busyTombstoneTtl : ℤ := 120000000

/-- How a teardown came to its end. -/
inductive End where
  | succeeded
  | spent
  | replaced
  | disposed
  deriving DecidableEq

/-- An attempt under way; a leg that another call has by now needs no call of the media service. -/
structure Attempt where
  object : ℕ
  key : TeardownKey
  handedOver : Bool
  deriving DecidableEq

/-- Where `acceptInvitation` waits: for the answer of the signalling, for the teardowns of the friend,
    to go on after them, for the answer of the media service. -/
inductive AcceptPhase where
  | accepting
  | draining
  | drained
  | answering
  deriving DecidableEq

structure Accept where
  object : ℕ
  inviteID : String
  friendNumber : ℤ
  phase : AcceptPhase
  deriving DecidableEq

/-- What is left of a function when the callback it made returns: to go by the answer of
    `isBusyForInvitation`, or to start teardowns, and one more when the last of them is over. -/
inductive Frame where
  | asked (call : CallInfo)
  | starts (actions : List Action) (later : Option Action)
  deriving DecidableEq

structure Waiting where
  object : ℕ
  action : Action
  deriving DecidableEq

/-- `onCallStateChanged` -/
structure Callback where
  inviteID : String
  state : CallState
  endReason : Option EndReason
  deriving DecidableEq

/-- The bridge, with its sections. Then what happened: the callbacks, the invitations announced as
    busy, the last reading of the clock, the media legs that were started and are not over, the
    attempts that were made, the ends of teardowns, and what the disposal asked for. -/
structure Bridge where
  activeCalls : AList (fun _ : String => CallInfo) := ∅
  pendingTeardowns : AList (fun _ : TeardownKey => PendingTeardown) := ∅
  busyTombstones : AList (fun _ : String => ℤ) := ∅
  disposed : Bool := false
  stack : List Frame := []
  accepts : List Accept := []
  rejects : List String := []
  waits : List Waiting := []
  attempts : List Attempt := []
  calls : ℕ := 0
  teardowns : ℕ := 0
  callbacks : List Callback := []
  busyCalls : List (String × ℤ) := []
  clock : Option ℤ := none
  legs : List (String × ℤ) := []
  made : List ℕ := []
  finished : List (ℕ × End) := []
  farewell : List Action := []

namespace Bridge

def emit (s : Bridge) (inviteID : String) (state : CallState) (endReason : Option EndReason) : Bridge :=
  { s with callbacks := s.callbacks ++ [⟨inviteID, state, endReason⟩] }

def push (s : Bridge) (frame : Frame) : Bridge := { s with stack := frame :: s.stack }

/-- The call of the id, none after the disposal. -/
def live (s : Bridge) (inviteID : String) : Option CallInfo :=
  if s.disposed then none else s.activeCalls.lookup inviteID

/-! ## Teardowns -/

/-- Another active call has the media leg of the friend. -/
def handsOver (s : Bridge) : Action → Bool
  | .avEnd inviteID friendNumber => s.activeCalls.entries.any fun entry =>
    entry.2.inviteID ≠ inviteID && entry.2.friendNumber = some friendNumber && entry.2.avLegStarted
  | _ => false

/-- `_runTeardownAttempt`, up to the answer of the action. -/
def runTeardownAttempt (s : Bridge) (key : TeardownKey) (pending : PendingTeardown) : Bridge :=
  { s with
    pendingTeardowns := s.pendingTeardowns.insert key
      { pending with attempts := pending.attempts + 1, timer := false }
    attempts := s.attempts ++ [⟨pending.object, key, s.handsOver pending.action⟩]
    made := s.made ++ [pending.object] }

/-- The end of the teardown that a new one for the key replaces. -/
def replacedBy (s : Bridge) (key : TeardownKey) : List (ℕ × End) :=
  match s.pendingTeardowns.lookup key with
  | some old => [(old.object, .replaced)]
  | none => []

def startBoundedTeardown (s : Bridge) (action : Action) : Bridge :=
  runTeardownAttempt { s with teardowns := s.teardowns + 1, finished := s.finished ++ s.replacedBy action.key }
    action.key { object := s.teardowns, action }

/-- The end of an attempt that was not the last word of another teardown. -/
def ends (s : Bridge) (pending : PendingTeardown) (success : Bool) : Option End :=
  if success then some .succeeded
  else if maxTeardownAttempts ≤ pending.attempts then some .spent
  else if s.disposed then some .disposed
  else none

/-- `_runTeardownAttempt`, from the answer of the action on. -/
def attemptAnswered (s : Bridge) (attempt : Attempt) (success : Bool) : Bridge :=
  match s.pendingTeardowns.lookup attempt.key with
  | none => s
  | some pending =>
    if pending.object ≠ attempt.object then s
    else match s.ends pending (success || attempt.handedOver) with
      | some reason => { s with
          pendingTeardowns := s.pendingTeardowns.erase attempt.key
          finished := s.finished ++ [(pending.object, reason)]
          legs := s.legs.filter fun leg => TeardownKey.avEnd leg.1 leg.2 ≠ attempt.key }
      | none => { s with
          pendingTeardowns := s.pendingTeardowns.insert attempt.key { pending with timer := true } }

def endAvLegIfStarted (s : Bridge) (call : CallInfo) : Bridge :=
  match call.friendNumber with
  | some friendNumber =>
    if call.avLegStarted then s.startBoundedTeardown (.avEnd call.inviteID friendNumber) else s
  | none => s

/-! ## The signalling listener -/

def pruneBusyTombstones (s : Bridge) (now : ℤ) : Bridge :=
  { s with
    clock := some now
    busyTombstones := eraseIf (fun entry => busyTombstoneTtl < now - entry.2 &&
      TeardownKey.reject entry.1 ∉ s.pendingTeardowns) s.busyTombstones }

def onReceiveNewInvitation (s : Bridge) (inviteID inviter groupID : String) (inviteeList : List String)
    (data : String) (numbers : String → ℤ) (now : ℤ) : Bridge :=
  let s := s.pruneBusyTombstones now
  if inviteID ∈ s.activeCalls ∨ inviteID ∈ s.busyTombstones then s
  else s.push (.asked {
    inviteID
    inviter
    groupID := some groupID
    inviteeList
    data
    state := .ringing
    friendNumber := lookupFriendNumber numbers inviter <|>
      inviteeList.head?.bind (lookupFriendNumber numbers) })

def rejectAsBusy (s : Bridge) (call : CallInfo) (now : ℤ) : Bridge :=
  { s with
    clock := some now
    busyTombstones := s.busyTombstones.insert call.inviteID now
    busyCalls := s.busyCalls ++ [(call.inviteID, now)]
    stack := .starts [.reject call.inviteID (some lineBusyRejectData)] none :: s.stack }

/-- The rest of `onReceiveNewInvitation`: a new call has its own number. -/
def surface (s : Bridge) (call : CallInfo) : Bridge :=
  emit { s with
    activeCalls := s.activeCalls.insert call.inviteID { call with object := s.calls }
    calls := s.calls + 1 } call.inviteID .ringing none

/-- What cancel, reject and timeout do with the call. -/
def finish (s : Bridge) (inviteID : String) (reason : CallInfo → EndReason) : Bridge :=
  match s.activeCalls.lookup inviteID with
  | some call =>
    let s := s.endAvLegIfStarted call
    emit { s with activeCalls := s.activeCalls.erase inviteID } inviteID .ended (some (reason call))
  | none => s

def onInvitationCancelled (s : Bridge) (inviteID : String) : Bridge :=
  s.finish inviteID fun call => if call.state = .inCall then .hangup else .cancel

/-- `lineBusy` is what `isLineBusyData` says of the payload. -/
def onInviteeRejected (s : Bridge) (inviteID : String) (lineBusy : Bool) : Bridge :=
  s.finish inviteID fun _ => if lineBusy then .lineBusy else .reject

def onInvitationTimeout (s : Bridge) (inviteID : String) : Bridge := s.finish inviteID fun _ => .timeout

def onInviteeAccepted (s : Bridge) (inviteID : String) : Bridge :=
  match s.activeCalls.lookup inviteID with
  | some call =>
    if call.state ≠ .inCall then
      emit { s with activeCalls := s.activeCalls.insert inviteID { call with state := .inCall } }
        inviteID .inCall none
    else s
  | none => s

/-! ## What the embedder calls -/

def registerOutgoingCall (s : Bridge) (inviteID inviter invitee data : String) (friendNumber : Option ℤ)
    (groupID : Option String) : Bridge :=
  if s.disposed then s
  else { s with
    activeCalls := s.activeCalls.insert inviteID {
      object := s.calls
      inviteID
      inviter
      groupID
      inviteeList := [invitee]
      data
      state := .calling
      friendNumber }
    calls := s.calls + 1 }

/-- The leg that a call has when it is marked as started. -/
def legOf (inviteID : String) : Option ℤ → List (String × ℤ)
  | some friendNumber => if isValidFriendNumber (some friendNumber) then [(inviteID, friendNumber)] else []
  | none => []

def markAvLegStarted (s : Bridge) (inviteID : String) (friendNumber : Option ℤ) (teardownIfMissing : Bool) :
    Bridge :=
  match s.live inviteID with
  | none =>
    match friendNumber with
    | some number =>
      if teardownIfMissing then
        startBoundedTeardown { s with legs := s.legs ++ [(inviteID, number)] } (.avEnd inviteID number)
      else s
    | none => s
  | some call =>
    { s with
      activeCalls := s.activeCalls.insert inviteID
        { call with friendNumber := friendNumber <|> call.friendNumber, avLegStarted := true }
      legs := s.legs ++ legOf inviteID (friendNumber <|> call.friendNumber) }

/-- The embedder hands over a leg that no call has claimed. -/
def endAvLegAndWaitForTeardown (s : Bridge) (inviteID : String) (friendNumber : ℤ) : Bridge :=
  startBoundedTeardown { s with legs := s.legs ++ [(inviteID, friendNumber)] } (.avEnd inviteID friendNumber)

def failAccept (s : Bridge) (inviteID : String) (postAccept : Bool) : Bridge :=
  let actions := if postAccept then
      ((s.activeCalls.lookup inviteID).bind CallInfo.friendNumber).toList.map (.avEnd inviteID)
    else [.reject inviteID none]
  push (emit { s with activeCalls := s.activeCalls.erase inviteID } inviteID .ended
    (some (if postAccept then .hangup else .cancel))) (.starts actions none)

def acceptInvitation (s : Bridge) (inviteID : String) (numbers : String → ℤ) : Bridge :=
  match s.live inviteID with
  | none => s
  | some call =>
    let friendNumber := if isValidFriendNumber call.friendNumber then call.friendNumber
      else lookupFriendNumber numbers call.inviter
    let s := { s with activeCalls := s.activeCalls.insert inviteID { call with friendNumber } }
    match friendNumber with
    | none => s.failAccept inviteID false
    | some number => { s with accepts := s.accepts ++ [⟨call.object, inviteID, number, .accepting⟩] }

def rejectInvitation (s : Bridge) (inviteID : String) : Bridge :=
  if inviteID ∈ s.activeCalls then
    push (emit { s with activeCalls := s.activeCalls.erase inviteID } inviteID .ended (some .reject))
      (.starts [.reject inviteID none] none)
  else { s with rejects := s.rejects ++ [inviteID] }

def rejectInvitationAsBusy (s : Bridge) (inviteID : String) (now : ℤ) : Bridge :=
  match s.activeCalls.lookup inviteID with
  | none => s
  | some call =>
    if call.state ≠ .ringing then s
    else
      let s := { s with activeCalls := s.activeCalls.erase inviteID }
      let s := if isValidFriendNumber call.friendNumber then s.endAvLegIfStarted call else s
      s.rejectAsBusy call now

/-- The teardowns of a call that ends, and one for after them. -/
def endFrame (call : CallInfo) (awaitAvTeardown : Bool) : Frame :=
  let leg := if call.avLegStarted then call.friendNumber.toList.map (.avEnd call.inviteID) else []
  let cancel := if call.state = .calling then [.cancel call.inviteID] else []
  if awaitAvTeardown ∧ leg ≠ [] then .starts leg cancel.head? else .starts (leg ++ cancel) none

/-- `endCall` and `endCallAndWaitForTeardown` -/
def endCall (s : Bridge) (inviteID : String) (awaitAvTeardown : Bool) : Bridge :=
  match s.activeCalls.lookup inviteID with
  | none => s
  | some call =>
    push (emit { s with activeCalls := s.activeCalls.erase inviteID } inviteID .ended
      (some (if call.state = .calling then .cancel else .hangup))) (endFrame call awaitAvTeardown)

/-- The attempts that a disposal makes for a call. -/
def disposeAttempts (call : CallInfo) : List Action :=
  (if call.avLegStarted ∧ isValidFriendNumber call.friendNumber then
    call.friendNumber.toList.map (.avEnd call.inviteID) else []) ++
  if call.state = .calling then [.cancel call.inviteID]
  else if call.state = .ringing then [.reject call.inviteID none] else []

def dispose (s : Bridge) : Bridge :=
  if s.disposed then s
  else { s with
    disposed := true
    pendingTeardowns := ∅
    finished := s.finished ++ s.pendingTeardowns.entries.map fun entry => (entry.2.object, .disposed)
    activeCalls := ∅
    busyTombstones := ∅
    legs := []
    farewell := s.activeCalls.entries.flatMap fun entry => disposeAttempts entry.2 }

/-! ## Sections that go on -/

/-- `identical`: the call of the section is still the active one of its id. -/
def current (s : Bridge) (accept : Accept) : Option CallInfo :=
  (s.activeCalls.lookup accept.inviteID).filter fun call => call.object = accept.object

/-- `acceptInvitation`, from the answer of the signalling on. -/
def acceptAnswered (s : Bridge) (accept : Accept) (code : ℤ) : Bridge :=
  match s.current accept with
  | none => s
  | some _ =>
    if code ≠ 0 then s.failAccept accept.inviteID false
    else { s with accepts := s.accepts ++ [{ accept with phase := .draining }] }

/-- `waitForAvTeardownsForFriend` finds none. -/
def drained (s : Bridge) (friendNumber : ℤ) : Bool :=
  s.pendingTeardowns.entries.all fun entry =>
    match entry.1 with
    | .avEnd _ number => number ≠ friendNumber
    | _ => true

/-- `acceptInvitation`, after the teardowns of the friend. -/
def acceptDrained (s : Bridge) (accept : Accept) : Bridge :=
  match s.current accept with
  | none => s
  | some _ => { s with accepts := s.accepts ++ [{ accept with phase := .answering }] }

/-- `acceptInvitation`, from the answer of the media service on. -/
def callAnswered (s : Bridge) (accept : Accept) (avResult : Bool) : Bridge :=
  match s.current accept with
  | none =>
    if avResult then s.endAvLegAndWaitForTeardown accept.inviteID accept.friendNumber else s
  | some call =>
    if avResult then
      emit { s with
        activeCalls := s.activeCalls.insert accept.inviteID { call with avLegStarted := true, state := .inCall }
        legs := s.legs ++ [(accept.inviteID, accept.friendNumber)] } accept.inviteID .inCall none
    else s.failAccept accept.inviteID true

/-- `rejectInvitation` of an invitation that is not tracked, from the answer on. -/
def rejectAnswered (s : Bridge) (inviteID : String) (code : ℤ) : Bridge :=
  if code = 0 then s.emit inviteID .ended (some .reject) else s

/-- The last of the teardowns that a section waits for is over. -/
def isOver (s : Bridge) (object : ℕ) : Bool :=
  s.pendingTeardowns.entries.all fun entry => entry.2.object ≠ object

def startAll (s : Bridge) (actions : List Action) : Bridge := actions.foldl startBoundedTeardown s

/-- The rest of a function that started a teardown waits for the end of the last one. -/
def goOn (s : Bridge) (actions : List Action) (later : Option Action) : Bridge :=
  let s := s.startAll actions
  { s with waits := s.waits ++ later.toList.map fun action => ⟨s.teardowns - 1, action⟩ }

end Bridge

/-! ## Steps -/

/-- What the embedder calls, at any time. -/
inductive Op where
  | register (inviteID inviter invitee data : String) (friendNumber : Option ℤ) (groupID : Option String)
  | markStarted (inviteID : String) (friendNumber : Option ℤ) (teardownIfMissing : Bool)
  | endLeg (inviteID : String) (friendNumber : ℤ)
  | accept (inviteID : String) (numbers : String → ℤ)
  | reject (inviteID : String)
  | rejectBusy (inviteID : String) (now : ℤ)
  | endCall (inviteID : String) (awaitAvTeardown : Bool)
  | dispose

/-- What comes from outside when no code of the embedder runs: the signalling, answers and timers.
    An answer can also be an exception. -/
inductive Outer where
  | invitation (inviteID inviter groupID : String) (inviteeList : List String) (data : String)
    (numbers : String → ℤ) (now : ℤ)
  | cancelled (inviteID : String)
  | accepted (inviteID : String)
  | rejected (inviteID : String) (lineBusy : Bool)
  | timedOut (inviteID : String)
  | acceptAnswered (place : ℕ) (code : Option ℤ)
  | acceptDrains (place : ℕ)
  | acceptResumes (place : ℕ)
  | callAnswered (place : ℕ) (avResult : Option Bool)
  | rejectAnswered (place : ℕ) (code : Option ℤ)
  | attemptAnswered (place : ℕ) (success : Bool)
  | timerFires (key : TeardownKey)
  | waitEnds (place : ℕ)

/-- The callback that the embedder is in answers `isBusyForInvitation`, returns, or throws. -/
inductive Event where
  | op (op : Op)
  | answer (busy : Bool) (now : ℤ)
  | back
  | threw
  | outer (outer : Outer)

namespace Bridge

def run (s : Bridge) : Op → Bridge
  | .register inviteID inviter invitee data friendNumber groupID =>
    s.registerOutgoingCall inviteID inviter invitee data friendNumber groupID
  | .markStarted inviteID friendNumber teardownIfMissing =>
    s.markAvLegStarted inviteID friendNumber teardownIfMissing
  | .endLeg inviteID friendNumber => s.endAvLegAndWaitForTeardown inviteID friendNumber
  | .accept inviteID numbers => s.acceptInvitation inviteID numbers
  | .reject inviteID => s.rejectInvitation inviteID
  | .rejectBusy inviteID now => s.rejectInvitationAsBusy inviteID now
  | .endCall inviteID awaitAvTeardown => s.endCall inviteID awaitAvTeardown
  | .dispose => s.dispose

/-- A section of `acceptInvitation` that is in this phase leaves its place. -/
def takeAccept (s : Bridge) (place : ℕ) (phase : AcceptPhase) : Option (Accept × Bridge) :=
  (s.accepts[place]?.filter fun accept => accept.phase = phase).map fun accept =>
    (accept, { s with accepts := s.accepts.eraseIdx place })

/-- The listener after the disposal does nothing. -/
def heard (s u : Bridge) : Bridge := if s.disposed then s else u

def outside (s : Bridge) : Outer → Option Bridge
  | .invitation inviteID inviter groupID inviteeList data numbers now =>
    some (s.heard (s.onReceiveNewInvitation inviteID inviter groupID inviteeList data numbers now))
  | .cancelled inviteID => some (s.heard (s.onInvitationCancelled inviteID))
  | .accepted inviteID => some (s.heard (s.onInviteeAccepted inviteID))
  | .rejected inviteID lineBusy => some (s.heard (s.onInviteeRejected inviteID lineBusy))
  | .timedOut inviteID => some (s.heard (s.onInvitationTimeout inviteID))
  | .acceptAnswered place code => (s.takeAccept place .accepting).map fun taken =>
    code.elim taken.2 (taken.2.acceptAnswered taken.1)
  | .acceptDrains place => ((s.takeAccept place .draining).filter fun taken =>
    s.drained taken.1.friendNumber).map fun taken =>
      { taken.2 with accepts := taken.2.accepts ++ [{ taken.1 with phase := .drained }] }
  | .acceptResumes place => (s.takeAccept place .drained).map fun taken => taken.2.acceptDrained taken.1
  | .callAnswered place avResult => (s.takeAccept place .answering).map fun taken =>
    avResult.elim taken.2 (taken.2.callAnswered taken.1)
  | .rejectAnswered place code => s.rejects[place]?.map fun inviteID =>
    let s := { s with rejects := s.rejects.eraseIdx place }
    code.elim s (s.rejectAnswered inviteID)
  | .attemptAnswered place success => s.attempts[place]?.map fun attempt =>
    attemptAnswered { s with attempts := s.attempts.eraseIdx place } attempt success
  | .timerFires key => ((s.pendingTeardowns.lookup key).filter PendingTeardown.timer).map
    (s.runTeardownAttempt key)
  | .waitEnds place => (s.waits[place]?.filter fun waiting => s.isOver waiting.object).map fun waiting =>
    startBoundedTeardown { s with waits := s.waits.eraseIdx place } waiting.action

/-- The answer of `isBusyForInvitation`: only then is the invitation rejected, or surfaced. -/
def answered (s : Bridge) (call : CallInfo) (busy : Bool) (now : ℤ) : Bridge :=
  if busy then s.rejectAsBusy call now
  else s.heard (s.surface call)

def step (s : Bridge) : Event → Option Bridge
  | .op op => some (s.run op)
  | .answer busy now =>
    match s.stack with
    | .asked call :: rest => some (answered { s with stack := rest } call busy now)
    | _ => none
  | .back =>
    match s.stack with
    | .starts actions later :: rest => some (goOn { s with stack := rest } actions later)
    | _ => none
  | .threw => if s.stack = [] then none else some { s with stack := s.stack.tail }
  | .outer outer => if s.stack = [] then s.outside outer else none

end Bridge

end Tim2Tox.CallBridge
