import Tim2Tox.LabelledRuns
import Tim2Tox.OfflineQueue

set_option autoImplicit false

/-!
# Send control

The drains, `cancelQueuedMessage` and `retryFailedMessage` of `FfiChatService` over the offline
queue and the message history. A task runs without interruption up to its next await, and the
suspended tasks stand in the order in which they suspended: queue mutations are done one at a
time in that order, and so are the saves of one conversation. Any number of drains may run,
for a group too, where the source allows one.
-/
namespace Tim2Tox.SendControl
open OfflineQueue

/-- Our own row of a message. A row that left the loaded window is in the archive file. -/
structure Row where
  isPending : Bool := false
  isFailed : Bool := false
  isCancelled : Bool := false
  isReceived : Bool := false
  isRead : Bool := false
  inWindow : Bool := true
  deriving DecidableEq

abbrev Rows : Type := Message → Option Row

def Row.deliveryProven (r : Row) : Bool := r.isReceived || r.isRead

inductive SendControlResult where
  | success
  | alreadyClaimed
  | notApplicable
  | persistFailed
  deriving DecidableEq

/-- What the native send of a text does: it succeeds, the payload is refused, the transport
    reports an error, or something else is thrown. -/
inductive Outcome where
  | ok
  | invalid
  | transport
  | error
  deriving DecidableEq

/-- The locals of a drain: its snapshot of the queue, the history list it holds and the
    messages it has claimed. -/
structure Drain where
  conversation : Conversation
  history : Bool
  rest : List Item
  claimed : List Message := []

/-- What a suspended task awaits for its item. -/
inductive Stage where
  | adding
  | cancelling
  | retrying
  | settling
  | unqueueing
  | dropping
  | discarding
  | loading
  | clearing
  | removing (pendingRow : Bool)
  | reremoving
  | reconciling
  | failing
  deriving DecidableEq

/-- Awaits a mutation of the queue. -/
def Stage.queues : Stage → Bool
  | .settling | .loading | .clearing | .reconciling => false
  | _ => true

/-- Awaits a save of the history. -/
def Stage.saves : Stage → Bool
  | .settling | .clearing | .reconciling => true
  | _ => false

/-- A history save: the list is encoded when its turn comes (or was copied before), then
    replaces the file, then its caller goes on. -/
inductive Save where
  | waiting
  | taken (rows : Rows)
  | landed

/-- A suspended task: a drain between two items, a save nobody awaits, or a drain or a call
    (no drain) that awaits something for an item. -/
inductive Task where
  | ready (drain : Drain)
  | background (conversation : Conversation) (save : Save)
  | on (stage : Stage) (item : Item) (drain : Option Drain) (save : Save)

def Task.queues : Task → Bool
  | .on stage _ _ _ => stage.queues
  | _ => false

def Task.savesTo (conversation : Conversation) : Task → Bool
  | .background c _ => c = conversation
  | .on stage item _ _ => stage.saves && item.message.conversation = conversation
  | .ready _ => false

inductive Entry where
  | queued (m : Message)
  | native (m : Message) (ok : Bool)
  | cancelResult (m : Message) (result : SendControlResult)
  | restarted
  deriving DecidableEq

/-- The two files, the running process, and a log of what happened. `installing` says that the
    queue file is ahead of the cache. -/
structure World where
  queueFile : List Item := []
  historyFile : Rows := fun _ => none
  historyExists : Conversation → Bool := fun _ => false
  cache : List Item := []
  installing : Bool := false
  rows : Rows := fun _ => none
  loaded : Conversation → Bool := fun _ => false
  claimedSends : Message → Bool := fun _ => false
  sendControlOps : Message → Bool := fun _ => false
  clearingRetryFailures : Message → Bool := fun _ => false
  dispatchedSends : Message → Bool := fun _ => false
  tasks : List Task := []
  known : Message → Bool := fun _ => false
  log : List Entry := []

namespace World

def push (w : World) (task : Task) : World := { w with tasks := w.tasks ++ [task] }

def logs (w : World) (entry : Entry) : World := { w with log := w.log ++ [entry] }

def setRow (w : World) (m : Message) (r : Row) : World :=
  { w with rows := Function.update w.rows m (some r) }

/-- The row in the loaded window. -/
def ownRow (w : World) (m : Message) : Option Row := (w.rows m).filter Row.inWindow

def rowCancelled (w : World) (history : Bool) (m : Message) : Bool :=
  history && (w.ownRow m).any Row.isCancelled

def queuedItem (w : World) (m : Message) : Option Item := w.cache.find? fun item => item.message = m

/-! ## Drains -/

def ready (w : World) : Option Drain → World
  | some d => w.push (.ready d)
  | none => w

/-- A drain ends and releases what it claimed. -/
def endDrain (w : World) : Option Drain → World
  | some d => { w with claimedSends := fun m => w.claimedSends m && m ∉ d.claimed }
  | none => w

def markDispatched (w : World) (m : Message) : World :=
  { w with dispatchedSends := Function.update w.dispatchedSends m true }

/-- Whether a drain may dispatch the item now. -/
def claimable (w : World) (d : Drain) (item : Item) : Bool :=
  dispatchable item.control && !w.sendControlOps item.message && !w.claimedSends item.message &&
    !w.dispatchedSends item.message && !w.rowCancelled d.history item.message && item ∈ w.cache

def claim (w : World) (m : Message) : World :=
  { w with claimedSends := Function.update w.claimedSends m true }

/-- The item stays queued: give up the claim and leave the loop. -/
def keepQueued (w : World) (d : Drain) (m : Message) : World :=
  endDrain { w with claimedSends := Function.update w.claimedSends m false }
    (some { d with claimed := d.claimed.erase m })

/-- What a cancelled or failed tombstone makes of the row. -/
def settledRow (w : World) (item : Item) (r : Row) : Row :=
  if item.control = some .cancelled then
    { r with isPending := false, isFailed := false, isCancelled := true }
  else if !r.isCancelled && !r.deliveryProven && !w.dispatchedSends item.message then
    { r with isPending := false, isFailed := true }
  else r

/-- The row `_settleTombstone` saves; none when it returns at once. -/
def tombstoneRow (w : World) (history owner : Bool) (item : Item) : Option Row :=
  if history && item ∈ w.cache && (owner || !w.sendControlOps item.message) then
    (w.ownRow item.message).map (w.settledRow item)
  else none

def finishCancel (w : World) (m : Message) (result : SendControlResult) : World :=
  logs { w with sendControlOps := Function.update w.sendControlOps m false } (.cancelResult m result)

/-- After `_settleTombstone`: the cancel has succeeded, or the drain takes its next item. -/
def afterSettle (w : World) (item : Item) : Option Drain → World
  | some d => w.ready d
  | none => w.finishCancel item.message .success

def settleTombstone (w : World) (history : Bool) (item : Item) (drain : Option Drain) : World :=
  match w.tombstoneRow history drain.isNone item with
  | some r => (w.setRow item.message r).push (.on .settling item drain .waiting)
  | none => w.afterSettle item drain

def settleRefusedItem (w : World) (d : Drain) (item : Item) : World :=
  if w.sendControlOps item.message then w.ready d
  else if !dispatchable item.control then w.settleTombstone d.history item (some d)
  else if w.dispatchedSends item.message || w.rowCancelled d.history item.message then
    w.push (.on .dropping item (some d) .waiting)
  else w.ready d

/-- A row a failed send can mark failed. -/
def failedRow (w : World) (d : Drain) (m : Message) : Bool :=
  d.history && (w.ownRow m).any fun r => !r.isCancelled && (r.isPending || !r.deliveryProven)

def commitDrainFailure (w : World) (d : Drain) (item : Item) : World :=
  if w.failedRow d item.message then w.push (.on .failing item (some d) .waiting)
  else w.endDrain d

def dispatch (w : World) (d : Drain) (item : Item) (outcome : Outcome) : World :=
  match outcome with
  | .ok => ((w.logs (.native item.message true)).markDispatched item.message).push
      (.on (.removing (d.history && (w.ownRow item.message).any Row.isPending)) item (some d) .waiting)
  | .invalid | .transport => (w.logs (.native item.message false)).endDrain d
  | .error => (w.logs (.native item.message false)).commitDrainFailure d item

/-- An empty text is cleared without a send; a peer that went offline ends the drain. -/
def send (w : World) (d : Drain) (item : Item) (deliverable : Bool) (outcome : Outcome) : World :=
  if item.message.text = "" then
    (w.markDispatched item.message).push (.on (.removing false) item (some d) .waiting)
  else if !deliverable then w.endDrain d
  else w.dispatch d item outcome

def clearing (w : World) (m : Message) (value : Bool) : World :=
  { w with clearingRetryFailures := Function.update w.clearingRetryFailures m value }

def isGroup : Conversation → Bool
  | .group _ => true
  | .peer _ => false

/-- The failure of a retried row is cleared: send it, unless the group is out of reach. -/
def cleared (w : World) (d : Drain) (item : Item) (deliverable : Bool) (outcome : Outcome) : World :=
  if isGroup d.conversation && !deliverable then
    (w.clearing item.message false).keepQueued d item.message
  else
    (w.clearing item.message false).send
      { d with history := d.history || w.loaded d.conversation } item deliverable outcome

def clearRetryFailureOf (w : World) (d : Drain) (item : Item) (deliverable : Bool)
    (outcome : Outcome) : World :=
  match w.ownRow item.message with
  | none => w.cleared d item deliverable outcome
  | some r =>
    if r.isCancelled then (w.clearing item.message false).keepQueued d item.message
    else
      (w.setRow item.message { r with isPending := true, isFailed := false }).push
        (.on .clearing item (some d) .waiting)

def clearRetryFailureDurably (w : World) (d : Drain) (item : Item) (deliverable : Bool)
    (outcome : Outcome) : World :=
  if d.history then (w.clearing item.message true).clearRetryFailureOf d item deliverable outcome
  else (w.clearing item.message true).push (.on .loading item (some d) .waiting)

/-- A drain looks at the next item of its snapshot. -/
def next (w : World) (d : Drain) (deliverable : Bool) (outcome : Outcome) : World :=
  match d.rest with
  | [] => w.endDrain d
  | item :: rest =>
    let d := { d with rest }
    if isGroup d.conversation && item.message.text = "" then
      w.push (.on .discarding item (some d) .waiting)
    else if isGroup d.conversation && !deliverable then w.endDrain d
    else if w.claimable d item then
      let d := { d with claimed := item.message :: d.claimed }
      if item.control = some .retry then
        (w.claim item.message).clearRetryFailureDurably d item deliverable outcome
      else (w.claim item.message).send d item deliverable outcome
    else w.settleRefusedItem d item

/-! ## After an await -/

/-- `_restoreQueuedPending`: a row whose send is queued shows pending again. -/
def restored (w : World) (m : Message) (r : Row) : Row :=
  if r.inWindow && !r.isPending && !r.isCancelled && !w.dispatchedSends m &&
      w.cache.any fun item => item.message = m && dispatchable item.control then
    { r with isPending := true, isFailed := false }
  else r

def restoreQueuedPending (w : World) (c : Conversation) : World :=
  { w with rows := fun m => if m.conversation = c then (w.rows m).map (w.restored m) else w.rows m }

/-- The row of a sent item. A peer drain that finds none appends one, unless it had found a
    pending row before the send. -/
def reconcile (w : World) (history pendingRow : Bool) (item : Item) (drain : Option Drain) : World :=
  match w.ownRow item.message with
  | some r =>
    if isGroup item.message.conversation && !history then w.ready drain
    else
      (w.setRow item.message { r with isPending := false, isFailed := false }).push
        (.on .reconciling item drain .waiting)
  | none =>
    if isGroup item.message.conversation || pendingRow then w.ready drain
    else
      let r := (w.rows item.message).getD {}
      ({ w with loaded := Function.update w.loaded item.message.conversation true }.setRow
        item.message { r with isPending := false, isFailed := false, inWindow := true }).push
          (.on .reconciling item drain .waiting)

def reconcileSentItem (w : World) (history : Bool) (item : Item) (drain : Option Drain) : World :=
  match w.ownRow item.message with
  | some r =>
    if history then
      (w.setRow item.message { r with isPending := false, isFailed := false }).push
        (.on .reconciling item drain .waiting)
    else w.ready drain
  | none => w.ready drain

/-- The mutation a task awaits. -/
def mutation (stage : Stage) (item : Item) : Mutation :=
  match stage with
  | .adding => .addMessage item
  | .cancelling => .replaceItem item { item with control := some .cancelled }
  | .retrying =>
    if item.control = some .failed then .replaceItem item { item with control := some .retry }
    else .addMessage item
  | .failing => .replaceItem item { item with control := some .failed }
  | _ => .removeItem item

inductive Written where
  | done
  | absent
  | failed
  deriving DecidableEq

/-- How a task goes on after its queue mutation. -/
def mutated (w : World) (stage : Stage) (item : Item) (drain : Option Drain) (written : Written) :
    World :=
  let m := item.message
  let history := drain.any Drain.history
  match stage with
  | .adding =>
    if written = .done then
      { w with
        rows := Function.update w.rows m (some ((w.rows m).getD { isPending := true }))
        loaded := Function.update w.loaded m.conversation true }
    else w
  | .cancelling => match written with
    | .done => w.settleTombstone (w.loaded m.conversation)
        { item with control := some .cancelled } none
    | .absent => w.finishCancel m .notApplicable
    | .failed => w.finishCancel m .persistFailed
  | .retrying =>
    let w' := { w with sendControlOps := Function.update w.sendControlOps m false }
    if written = .done then
      match w.ownRow m with
      | some r => (w'.setRow m { r with isPending := true, isFailed := false }).push
          (.background m.conversation .waiting)
      | none => w'
    else w'
  | .unqueueing => w.afterSettle item drain
  | .discarding => if written = .failed then w.endDrain drain else w.ready drain
  | .removing pendingRow =>
    if written = .failed then w.push (.on .reremoving item drain .waiting)
    else if m.text = "" then w.ready drain
    else w.reconcile history pendingRow item drain
  | .reremoving => w.reconcileSentItem history item drain
  | .failing =>
    if written = .done then
      w.settleTombstone history { item with control := some .failed } drain
    else w.endDrain drain
  | _ => w.ready drain

/-- How a task goes on after its history save. -/
def saved (w : World) (stage : Stage) (item : Item) (drain : Option Drain) (ok deliverable : Bool)
    (outcome : Outcome) : World :=
  match stage, drain with
  | .settling, _ =>
    if ok then w.push (.on .unqueueing item drain .waiting) else w.afterSettle item drain
  | .clearing, some d =>
    if ok && (w.ownRow item.message).all fun r => !r.isFailed && !r.isCancelled then
      w.cleared d item deliverable outcome
    else (w.clearing item.message false).keepQueued d item.message
  | _, _ => w.ready drain

/-- The conversation was loaded for a retry (what a load does is a `loadHistory` of its own). -/
def historyLoaded (w : World) (item : Item) (d : Drain) (deliverable : Bool) (outcome : Outcome) :
    World :=
  if w.loaded d.conversation then w.clearRetryFailureOf d item deliverable outcome
  else (w.clearing item.message false).keepQueued d item.message

/-! ## Calls -/

def cancellable (w : World) (m : Message) : Except SendControlResult Item :=
  if w.claimedSends m || w.dispatchedSends m then .error .alreadyClaimed
  else if w.sendControlOps m then .error .notApplicable
  else match w.queuedItem m with
    | some item => if dispatchable item.control then .ok item else .error .notApplicable
    | none => .error .notApplicable

def cancelQueuedMessage (w : World) (m : Message) : World :=
  match w.cancellable m with
  | .ok item => push { w with sendControlOps := Function.update w.sendControlOps m true }
      (.on .cancelling item none .waiting)
  | .error result => w.logs (.cancelResult m result)

/-- The item a retry replaces (a failed tombstone) or adds. -/
def retryable (w : World) (m : Message) : Option Item :=
  if (w.ownRow m).any (fun r => r.isFailed && !r.isCancelled) && !w.claimedSends m &&
      !w.sendControlOps m then
    match w.queuedItem m with
    | some item => if item.control = some .failed then some item else none
    | none => some { message := m, control := some .retry }
  else none

def retryFailedMessage (w : World) (m : Message) : World :=
  match w.retryable m with
  | some item => push { w with sendControlOps := Function.update w.sendControlOps m true }
      (.on .retrying item none .waiting)
  | none => w

/-- A new process loads every history, then the queue. -/
def restart (w : World) : World :=
  let fresh : World :=
    { queueFile := w.queueFile, historyFile := w.historyFile, historyExists := w.historyExists
      cache := w.queueFile
      rows := fun m => (w.historyFile m).map fun r => { r with isPending := false }
      loaded := w.historyExists, known := w.known, log := w.log ++ [.restarted] }
  { fresh with rows := fun m => (fresh.rows m).map (fresh.restored m) }

end World

/-! ## Runs -/

inductive Event where
  | queueText (m : Message)
  | cancelQueuedMessage (m : Message)
  | retryFailedMessage (m : Message)
  | sendPending (c : Conversation)
  | saveHistory (c : Conversation) (copied : Bool)
  | loadHistory (c : Conversation)
  | take (j : ℕ)
  | write (j : ℕ)
  | fail (j : ℕ)
  | resume (j : ℕ) (deliverable : Bool) (outcome : Outcome)
  | receipt (m : Message) (read : Bool)
  | failure (m : Message) (pending : Bool)
  | trim (m : Message)
  | restart

/-- No task before the `j`-th waits for the same thing. -/
def isFirst (tasks : List Task) (p : Task → Bool) (j : ℕ) : Bool := (tasks.take j).all fun t => !p t

/-- The turn of a task that waits for a queue mutation or a history save. -/
def World.turn (w : World) (j : ℕ) : Task → Bool
  | .on stage item _ _ =>
    if stage.queues then isFirst w.tasks Task.queues j
    else isFirst w.tasks (Task.savesTo item.message.conversation) j
  | .background c _ => isFirst w.tasks (Task.savesTo c) j
  | .ready _ => true

/-- The rows of one conversation replace its file. -/
def World.land (w : World) (c : Conversation) (rows : Rows) : World :=
  { w with
    historyFile := fun m => if m.conversation = c then rows m else w.historyFile m
    historyExists := Function.update w.historyExists c true }

def stepTake (w : World) (j : ℕ) : Option World :=
  match w.tasks[j]? with
  | some (.background c .waiting) =>
    if w.turn j (.background c .waiting) then
      some { w with tasks := w.tasks.set j (.background c (.taken w.rows)) } else none
  | some (.on stage item drain .waiting) =>
    if stage.saves && w.turn j (.on stage item drain .waiting) then
      some { w with tasks := w.tasks.set j (.on stage item drain (.taken w.rows)) } else none
  | _ => none

def stepWrite (w : World) (j : ℕ) : Option World :=
  match w.tasks[j]? with
  | some (.background c (.taken rows)) =>
    if w.turn j (.background c .waiting) then
      some { (w.land c rows) with tasks := w.tasks.set j (.background c .landed) } else none
  | some (.on stage item drain save) =>
    match save with
    | .taken rows =>
      if w.turn j (.on stage item drain save) then
        some { (w.land item.message.conversation rows) with
          tasks := w.tasks.set j (.on stage item drain .landed) } else none
    | _ =>
      if stage.queues && w.turn j (.on stage item drain save) && !w.installing &&
          (World.mutation stage item).applies w.cache then
        some { w with
          queueFile := (World.mutation stage item).apply w.cache
          installing := true
          log := if stage = .adding then w.log ++ [.queued item.message] else w.log }
      else none
  | _ => none

def stepFail (w : World) (j : ℕ) : Option World :=
  let rest := { w with tasks := w.tasks.eraseIdx j }
  match w.tasks[j]? with
  | some (.background _ .landed) => none
  | some (.background c save) => if w.turn j (.background c save) then some rest else none
  | some (.on _ _ _ .landed) => none
  | some (.on stage item drain save) =>
    if w.turn j (.on stage item drain save) then
      if stage.queues then
        if !w.installing && (World.mutation stage item).applies w.cache then
          some (rest.mutated stage item drain .failed) else none
      else if stage.saves then some (rest.saved stage item drain false true .ok)
      else none
    else none
  | _ => none

def stepResume (w : World) (j : ℕ) (deliverable : Bool) (outcome : Outcome) : Option World :=
  let rest := { w with tasks := w.tasks.eraseIdx j }
  match w.tasks[j]? with
  | some (.ready d) => some (rest.next d deliverable outcome)
  | some (.background c .landed) => if w.turn j (.background c .landed) then some rest else none
  | some (.on .loading item (some d) _) => some (rest.historyLoaded item d deliverable outcome)
  | some (.on stage item drain save) =>
    if w.turn j (.on stage item drain save) then
      if stage.queues then
        if w.installing then
          some (World.mutated { rest with cache := w.queueFile, installing := false } stage item
            drain .done)
        else if !(World.mutation stage item).applies w.cache then
          some (rest.mutated stage item drain .absent)
        else none
      else match save with
        | .landed => some (rest.saved stage item drain true deliverable outcome)
        | _ => none
    else none
  | _ => none

def step (w : World) : Event → Option World
  | .queueText m =>
    if w.known m then none
    else some (World.push { w with known := Function.update w.known m true }
      (.on .adding { message := m } none .waiting))
  | .cancelQueuedMessage m => some (w.cancelQueuedMessage m)
  | .retryFailedMessage m => some (w.retryFailedMessage m)
  | .sendPending c => some (w.push (.ready
      { conversation := c, history := w.loaded c
        rest := w.cache.filter fun item => item.message.conversation = c }))
  | .saveHistory c copied =>
    if w.loaded c then
      some (w.push (.background c (if copied then .taken w.rows else .waiting))) else none
  | .loadHistory c => if w.loaded c then some (w.restoreQueuedPending c) else none
  | .take j => stepTake w j
  | .write j => stepWrite w j
  | .fail j => stepFail w j
  | .resume j deliverable outcome => stepResume w j deliverable outcome
  | .receipt m read => match w.ownRow m with
    | some r =>
      -- A receipt is about a message that went out.
      if .native m true ∈ w.log ∧ r.isCancelled = false then
        some (w.setRow m { r with isReceived := true, isRead := r.isRead || read, isFailed := false })
      else none
    | none => none
  | .failure m pending => match w.ownRow m with
    | some r =>
      if r.deliveryProven || w.dispatchedSends m || w.clearingRetryFailures m then none
      else some (w.setRow m { r with isFailed := true, isPending := pending })
    | none => none
  | .trim m => match w.ownRow m with
    | some r => some (w.setRow m { r with inWindow := false })
    | none => none
  | .restart => some w.restart

end Tim2Tox.SendControl
