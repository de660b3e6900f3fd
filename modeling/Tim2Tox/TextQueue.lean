import Mathlib.Algebra.Ring.Nat
import Mathlib.Data.Int.Notation
import Mathlib.Tactic.Common

set_option autoImplicit false

/-!
# The bounded text-event queue

`SimpleMsgListenerImpl` between its producers and `poll_text`. Every call holds the lock of the
queue, so a run is a sequence of calls; the session epoch of a producer is read before the lock
and is an argument here. Sequence numbers do not wrap.
-/
namespace Tim2Tox.TextQueue

/-- The bytes of a `std::string`. -/
abbrev Line : Type := List UInt8

def ascii (s : String) : Line := s.toList.map fun c => UInt8.ofNat c.toNat

inductive EventClass where
  | lossy
  | chat
  | state
  deriving DecidableEq

def kSoftMaxEvents : ℕ := 64 * 1024
def kSoftMaxBytes : ℕ := 32 * 1024 * 1024
def kHardMaxEvents : ℕ := 2 * kSoftMaxEvents
def kHardMaxBytes : ℕ := 2 * kSoftMaxBytes
def kCompactMinTombstones : ℕ := 4096
def kSessionEpochUnknown : ℤ := -1
def kSessionEpochNone : ℤ := 0
def intMax : ℕ := 2 ^ 31 - 1

def hasPrefix (line : Line) (start : String) : Bool := (ascii start).isPrefixOf line

/-- The field of bytes done and the next one, the total, agree. -/
def isFinalProgress (line : Line) (doneField : ℕ) : Bool :=
  let fields := line.splitOn 58
  let done := fields.getD doneField []
  let total := fields.getD (doneField + 1) []
  !done.isEmpty && done = total

def classify (line : Line) : EventClass :=
  if hasPrefix line "typing:" then .lossy
  else if hasPrefix line "progress_send:" then if isFinalProgress line 2 then .state else .lossy
  else if hasPrefix line "progress_recv:" then if isFinalProgress line 3 then .state else .lossy
  else if hasPrefix line "c2c:" || hasPrefix line "c2caction:" || hasPrefix line "c2cbin:" ||
      hasPrefix line "gtext:" || hasPrefix line "gaction:" || hasPrefix line "gcustombin:" ||
      hasPrefix line "rendezvous_packet:" then .chat
  else .state

structure TextEvent where
  instanceId : ℤ
  line : Line
  cls : EventClass
  live : Bool
  sessionEpoch : ℤ
  deriving DecidableEq

/-- The queue, its index of evictable events by class and its counters. The sequence number of
    `textQ[i]` is `frontSeq + i`. -/
structure Queue where
  textQ : List TextEvent := []
  frontSeq : ℕ := 0
  evictable : EventClass → List ℕ := fun _ => []
  liveEvents : ℕ := 0
  liveBytes : ℕ := 0
  tombstones : ℕ := 0
  livePerInstance : ℤ → Option ℕ := fun _ => none
  polledEpoch : ℤ → Option ℤ := fun _ => none
  drops : EventClass → ℕ := fun _ => 0

namespace Queue

def recordDrop (q : Queue) (cls : EventClass) : Queue :=
  { q with drops := Function.update q.drops cls (q.drops cls + 1) }

def overCaps (q : Queue) (incomingBytes maxEvents maxBytes : ℕ) : Bool :=
  q.liveEvents + 1 > maxEvents || q.liveBytes + incomingBytes > maxBytes

def liveCountFor (q : Queue) (instanceId : ℤ) : ℕ := (q.livePerInstance instanceId).getD 0

/-- A live event leaves the counters; a count of zero leaves the map. -/
def uncount (q : Queue) (event : TextEvent) : Queue :=
  { q with
    liveBytes := q.liveBytes - event.line.length
    liveEvents := q.liveEvents - 1
    livePerInstance := Function.update q.livePerInstance event.instanceId
      ((q.livePerInstance event.instanceId).bind fun n => if n - 1 = 0 then none else some (n - 1)) }

/-- The record belongs to the instance and not to the session to keep. -/
def purges (instanceId keepEpoch : ℤ) (event : TextEvent) : Bool :=
  (instanceId ≠ kSessionEpochUnknown && event.instanceId = instanceId) &&
    (keepEpoch = kSessionEpochNone || (event.sessionEpoch > 0 && event.sessionEpoch ≠ keepEpoch))

/-- The rebuild pass: the queue so far, the records kept and how many were dropped. -/
structure Rebuild where
  queue : Queue
  kept : List TextEvent := []
  dropped : ℕ := 0

def Rebuild.visit (instanceId keepEpoch : ℤ) (r : Rebuild) (event : TextEvent) : Rebuild :=
  if !event.live then r
  else if purges instanceId keepEpoch event then
    { r with queue := r.queue.uncount event, dropped := r.dropped + 1 }
  else
    let seq := r.queue.frontSeq + r.kept.length
    { r with
      queue := if event.cls ≠ .state then
          { r.queue with
            evictable := Function.update r.queue.evictable event.cls
              (r.queue.evictable event.cls ++ [seq]) }
        else r.queue
      kept := r.kept ++ [event] }

def purgeLocked (q : Queue) (instanceId keepEpoch : ℤ) : ℕ × Queue :=
  let r := q.textQ.foldl (Rebuild.visit instanceId keepEpoch)
    { queue := { q with evictable := fun _ => [] } }
  (r.dropped, { r.queue with textQ := r.kept, tombstones := 0 })

def compactLocked (q : Queue) : Queue := (q.purgeLocked kSessionEpochUnknown 0).2

/-- The event at a position becomes a tombstone. -/
def bury (q : Queue) (pos : ℕ) (event : TextEvent) : Queue :=
  { q.uncount event with
    textQ := q.textQ.set pos { event with line := [], live := false }
    tombstones := q.tombstones + 1 }

/-- Tombstones at the front go, and with them the index entries before the new front. -/
def trim (q : Queue) : Queue :=
  let dead := q.textQ.takeWhile fun event => !event.live
  let front := q.frontSeq + dead.length
  { q with
    textQ := q.textQ.dropWhile fun event => !event.live
    frontSeq := front
    tombstones := q.tombstones - dead.length
    evictable := fun cls => (q.evictable cls).dropWhile fun seq => seq < front }

def removeLocked (q : Queue) (pos : ℕ) : Queue :=
  match q.textQ[pos]? with
  | none => q
  | some event =>
    let q := (q.bury pos event).trim
    if q.tombstones ≥ kCompactMinTombstones && q.tombstones > q.liveEvents then q.compactLocked
    else q

/-- Evict the oldest live event of a class; what is left of the index is given. -/
def evictFrom (q : Queue) (cls : EventClass) : List ℕ → Bool × Queue
  | [] => (false, { q with evictable := Function.update q.evictable cls [] })
  | seq :: rest =>
    if seq < q.frontSeq then q.evictFrom cls rest
    else match q.textQ[seq - q.frontSeq]? with
      | some event =>
        if event.live then
          (true, (recordDrop { q with evictable := Function.update q.evictable cls rest }
            cls).removeLocked (seq - q.frontSeq))
        else q.evictFrom cls rest
      | none => q.evictFrom cls rest

def evictOldest (q : Queue) (cls : EventClass) : Bool × Queue := q.evictFrom cls (q.evictable cls)

/-- Make room under the soft caps: lossy events first, then (not for a lossy newcomer) chat
    events. Every turn evicts a live event, so as many turns as there are live events suffice. -/
def makeRoom (cls : EventClass) (bytes : ℕ) : ℕ → Queue → Queue
  | 0, q => q
  | turns + 1, q =>
    if q.overCaps bytes kSoftMaxEvents kSoftMaxBytes then
      match q.evictOldest .lossy with
      | (true, q) => makeRoom cls bytes turns q
      | (false, q) =>
        if cls ≠ .lossy then
          match q.evictOldest .chat with
          | (true, q) => makeRoom cls bytes turns q
          | (false, q) => q
        else q
    else q

def accept (q : Queue) (event : TextEvent) : Queue :=
  { q with
    textQ := q.textQ ++ [event]
    evictable := if event.cls ≠ .state then
        Function.update q.evictable event.cls
          (q.evictable event.cls ++ [q.frontSeq + q.textQ.length])
      else q.evictable
    liveEvents := q.liveEvents + 1
    liveBytes := q.liveBytes + event.line.length
    livePerInstance := Function.update q.livePerInstance event.instanceId
      (some (q.liveCountFor event.instanceId + 1)) }

def enqueueTextLineForInstance (q : Queue) (instanceId : ℤ) (line : Line) (sessionEpoch : ℤ) :
    Queue :=
  let cls := classify line
  let q := makeRoom cls line.length (q.liveEvents + 1) q
  let event : TextEvent := { instanceId, line, cls, live := true, sessionEpoch }
  if q.overCaps line.length kSoftMaxEvents kSoftMaxBytes then
    if cls ≠ .state then q.recordDrop cls
    else if q.overCaps line.length kHardMaxEvents kHardMaxBytes then q.recordDrop cls
    else q.accept event
  else q.accept event

/-- What a poll returns and the bytes it wrote to the buffer. -/
structure Polled where
  result : ℤ
  payload : Option Line := none
  deriving DecidableEq

def copyPayloadOrReturnRequiredCapacity (payload : Line) (buffer : Bool) (bufferLen : ℤ) : Polled :=
  if payload.length > intMax - 1 then { result := -(intMax + 1) }
  else if bufferLen ≤ 0 then { result := -(payload.length + 1) }
  else if !buffer then { result := 0 }
  else if (payload.length + 1 : ℤ) > bufferLen then { result := -(payload.length + 1) }
  else { result := payload.length, payload := some payload }

/-- Once a session: the records a previous session left for the instance are dropped. -/
def enterSession (q : Queue) (instanceId sessionEpoch : ℤ) : Queue :=
  if sessionEpoch > 0 && q.polledEpoch instanceId ≠ some sessionEpoch then
    let q := (q.purgeLocked instanceId sessionEpoch).2
    { q with polledEpoch := Function.update q.polledEpoch instanceId (some sessionEpoch) }
  else q

def addressed (instanceId : ℤ) (event : TextEvent) : Bool :=
  event.live && (event.instanceId = 0 || event.instanceId = instanceId)

def pollText (q : Queue) (instanceId sessionEpoch : ℤ) (buffer : Bool) (len : ℤ) :
    Polled × Queue :=
  let q := q.enterSession instanceId sessionEpoch
  if q.liveCountFor 0 = 0 && (instanceId = 0 || q.liveCountFor instanceId = 0) then
    ({ result := 0 }, q)
  else match q.textQ.findIdx? (addressed instanceId) with
    | none => ({ result := 0 }, q)
    | some i =>
      let line := (q.textQ[i]?.map TextEvent.line).getD []
      let polled := copyPayloadOrReturnRequiredCapacity line buffer len
      if polled.result < 0 then (polled, q) else (polled, q.removeLocked i)

def purgeInstance (q : Queue) (instanceId : ℤ) : Queue :=
  let q := (q.purgeLocked instanceId kSessionEpochNone).2
  { q with polledEpoch := Function.update q.polledEpoch instanceId none }

end Queue

inductive Call where
  | enqueue (instanceId : ℤ) (line : Line) (sessionEpoch : ℤ)
  | poll (instanceId sessionEpoch : ℤ) (buffer : Bool) (len : ℤ)
  | purge (instanceId : ℤ)

def Queue.after (q : Queue) : Call → Queue
  | .enqueue instanceId line sessionEpoch => q.enqueueTextLineForInstance instanceId line sessionEpoch
  | .poll instanceId sessionEpoch buffer len => (q.pollText instanceId sessionEpoch buffer len).2
  | .purge instanceId => q.purgeInstance instanceId

end Tim2Tox.TextQueue
