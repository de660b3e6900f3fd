import Tim2Tox.FileDisks
import Tim2Tox.KeyedTables
import Tim2Tox.StorageNames

set_option autoImplicit false

/-!
# Receiving files

The native side of a file transfer: an offer leaves a context under its instance, friend and file
number, an accept opens the file of the context, chunks are written where the peer says, and a chunk
of length 0 ends the transfer. What the operating system answers comes with the callback.
-/
namespace Tim2Tox.FileReceives
open FileDisks StorageNames KeyedTables

/-! ## file_io_compat.cpp -/

/-- What depends on the system: the largest offset `Seek64` passes on, `ENOSPC` and `EDQUOT`. -/
structure Platform where
  maxOffset : UInt64
  enospc : ℤ
  edquot : Option ℤ

def checkedEndPosition (position written : UInt64) : Option UInt64 :=
  if written > 0xFFFFFFFFFFFFFFFF - position then none else some (position + written)

def checkedWriteRange (position length expectedSize : UInt64) : Option UInt64 :=
  (checkedEndPosition position length).filter fun last => decide (last ≤ expectedSize)

def kReceiveReserveBytes : UInt64 := 16 * 1024 * 1024

def hasRoomForReceive (available size reserve : UInt64) : Bool :=
  if size > 0xFFFFFFFFFFFFFFFF - reserve then false else decide (size + reserve ≤ available)

inductive Reason where
  | noSpace
  | io
  deriving DecidableEq

def isNoSpaceErrno (p : Platform) (err : ℤ) : Bool := some err == p.edquot || err == p.enospc

def classifyWriteErrno (p : Platform) (err : ℤ) : Reason :=
  if isNoSpaceErrno p err then .noSpace else .io

/-! ## The state -/

structure RecvCtx where
  fp : Option ℕ
  size : UInt64
  received : UInt64
  path : Bytes
  senderHex : Bytes
  kind : UInt32
  ioFailed : Bool
  deriving DecidableEq

/-- The instance and the key in its map. -/
abbrev Key := ℤ × UInt64

def fileKey (instanceId : ℤ) (friendNumber fileNumber : UInt32) : Key :=
  (instanceId, (friendNumber.toUInt64 <<< 32) ||| fileNumber.toUInt64)

abbrev RecvFiles := AList fun _ : Key => RecvCtx

structure State where
  fileRecvDir : Bytes
  recvFiles : RecvFiles
  disk : Disk Bytes UInt8

/-- The events for Dart. -/
inductive Line where
  | avatarRequest (instanceId : ℤ) (senderHex : Bytes) (fileNumber : UInt32) (fileSize : UInt64)
      (fileId : Bytes)
  | fileRequest (instanceId : ℤ) (senderHex : Bytes) (fileNumber : UInt32) (fileSize : UInt64)
      (kind : UInt32) (name : Bytes)
  | progressRecv (instanceId : ℤ) (senderHex : Bytes) (received total : UInt64) (path : Bytes)
  | fileDone (instanceId : ℤ) (senderHex : Bytes) (kind : UInt32) (path : Bytes)
  | fileRecvFailed (instanceId : ℤ) (senderHex : Bytes) (fileNumber : UInt32) (reason : Reason)
  | fileCanceled (senderHex : Bytes) (fileNumber : UInt32)
  deriving DecidableEq

/-- What a callback does beside changing the state: its calls of `WriteAt64`, with what the write
    and the flush after it came to, the failures it notes and the lines it enqueues. -/
inductive Effect where
  | write (key : Key) (file : ℕ) (position : UInt64) (length written : ℕ) (flushed : Bool)
  | markIoFailed (key : Key)
  | enqueue (key : Key) (line : Line)
  deriving DecidableEq

namespace State

def context (s : State) (key : Key) : Option RecvCtx := s.recvFiles.lookup key

def put (s : State) (key : Key) (ctx : RecvCtx) : State :=
  { s with recvFiles := s.recvFiles.insert key ctx }

def forget (s : State) (key : Key) : State := { s with recvFiles := s.recvFiles.erase key }

/-- `RemoveUtf8` of the data file and of its marker. -/
def removeReceived (s : State) (path : Bytes) : State :=
  { s with disk := (s.disk.unlink path).unlink (receiveMarkerPath path) }

end State

/-! ## The end of a receive -/

def discardReceive (s : State) (key : Key) : State × Option RecvCtx :=
  match s.context key with
  | none => (s, none)
  | some ctx => ((s.forget key).removeReceived ctx.path, some ctx)

def failReceive (s : State) (key : Key) (fileNumber : UInt32) (reason : Reason) :
    State × List Effect :=
  match discardReceive s key with
  | (s, none) => (s, [])
  | (s, some ctx) => (s, [.enqueue key (.fileRecvFailed key.1 ctx.senderHex fileNumber reason)])

/-- The session of an instance ends: what it has not received in full is removed. -/
def eraseRecvContextsForInstance (s : State) (instanceId : ℤ) : State :=
  let ended := s.recvFiles.entries.filter fun entry => entry.1.1 == instanceId
  let unfinished := ended.filter fun entry => decide (entry.2.received < entry.2.size)
  { s with
    recvFiles := eraseAll (ended.map Sigma.fst) s.recvFiles
    disk := unfinished.foldl (fun disk entry => disk.unlink entry.2.path) s.disk }

/-! ## Offers -/

def avatarKind : UInt32 := 1

structure Offer where
  instanceId : ℤ
  friendNumber : UInt32
  fileNumber : UInt32
  kind : UInt32
  fileSize : UInt64
  filename : Bytes
  senderHex : Bytes
  /-- What `tox_file_get_file_id` gives, asked for an avatar only. -/
  fileId : Option Bytes

namespace Offer

def key (o : Offer) : Key := fileKey o.instanceId o.friendNumber o.fileNumber

def name (o : Offer) : Bytes := offeredName o.kind o.friendNumber o.fileNumber o.filename

def full (dir : Bytes) (o : Offer) : Bytes :=
  dir ++ 47 :: storageName o.senderHex o.kind o.friendNumber o.fileNumber o.filename

def isAvatarDeletion (o : Offer) : Bool := o.kind == avatarKind && o.fileSize == 0

end Offer

/-- The callback of `setFileRecvCallback`. -/
def fileRecvCallback (s : State) (o : Offer) : State × List Effect :=
  let kept :=
    if o.isAvatarDeletion then s
    else s.put o.key ⟨none, o.fileSize, 0, o.full s.fileRecvDir, o.senderHex, o.kind, false⟩
  if o.kind = avatarKind then
    match o.fileId with
    | none => (s, [])
    | some fileId =>
      (kept, [.enqueue o.key (.avatarRequest o.instanceId o.senderHex o.fileNumber o.fileSize fileId)])
  else
    (kept, [.enqueue o.key
      (.fileRequest o.instanceId o.senderHex o.fileNumber o.fileSize o.kind o.name)])

/-! ## Accepting -/

def kAvatarMaxBytes : UInt64 := 10 * 1024 * 1024

structure ControlIo where
  /-- `AvailableBytes` of the directory. -/
  available : Option UInt64
  markerOpens : Bool
  markerCloses : Bool
  markerErrno : ℤ
  opens : Bool
  openErrno : ℤ
  /-- `tox_file_control` -/
  controlled : Bool

def localCode (p : Platform) (err : ℤ) : ℤ := if isNoSpaceErrno p err then -7 else -5

/-- Opens the file of a receive that is not open yet; gives the file and its path. -/
def openReceive (p : Platform) (s : State) (key : Key) (io : ControlIo) :
    State × Except ℤ (Option (ℕ × Bytes)) :=
  match s.context key with
  | none => (s, .error (-3))
  | some ctx =>
    if ctx.kind = avatarKind ∧ ctx.size > kAvatarMaxBytes then (s, .error (-6))
    else if ctx.fp ≠ none then (s, .ok none)
    else
      let trackReceive := ctx.kind != avatarKind
      let markerPath := receiveMarkerPath ctx.path
      if trackReceive && ctx.size != 0xFFFFFFFFFFFFFFFF &&
          io.available.any (fun available =>
            !hasRoomForReceive available ctx.size kReceiveReserveBytes) then
        (s, .error (-7))
      else
        let marked :=
          if trackReceive && io.markerOpens then (s.disk.openTruncate markerPath).1 else s.disk
        if trackReceive && !(io.markerOpens && io.markerCloses) then
          ({ s with disk := marked.unlink markerPath }, .error (localCode p io.markerErrno))
        else if io.opens = false then
          ({ s with disk := if trackReceive then marked.unlink markerPath else marked },
            .error (localCode p io.openErrno))
        else
          let opened := marked.openTruncate ctx.path
          ({ s with disk := opened.1 }.put key { ctx with fp := some opened.2 },
            .ok (some (opened.2, ctx.path)))

/-- The accept was opened but not sent: the file is closed again. -/
def closeOpened (s : State) (key : Key) (opened : ℕ × Bytes) : State :=
  match s.context key with
  | none => s
  | some ctx =>
    if ctx.fp = some opened.1 then
      let emptied :=
        if s.disk.fileSize opened.2 = some 0 then s.disk.unlink opened.2 else s.disk
      { s with disk := emptied.unlink (receiveMarkerPath opened.2) }.put key { ctx with fp := none }
    else s

/-- `target` is the friend the instance and the user id lead to, or the code of the guard that
    refused them. -/
def fileControl (p : Platform) (s : State) (instanceId : ℤ) (target : Except ℤ UInt32)
    (fileNumber : UInt32) (control : ℤ) (io : ControlIo) : State × ℤ :=
  match target with
  | .error code => (s, code)
  | .ok friendNo =>
    let key := fileKey instanceId friendNo fileNumber
    if control = 0 then
      match openReceive p s key io with
      | (s, .error code) => (s, code)
      | (s, .ok opened) =>
        if io.controlled = true then (s, 1)
        else
          match opened with
          | none => (s, -4)
          | some opened => (closeOpened s key opened, -4)
    else if control = 1 then (s, if io.controlled = true then 1 else -4)
    else if control = 2 then
      if io.controlled = true then ((discardReceive s key).1, 1) else (s, -4)
    else (s, -1)

/-! ## Chunks -/

/-- What writing, flushing, closing and `stat` come to. What a write that is flushed reports is
    what has landed. -/
structure ChunkIo (length : ℕ) where
  seeks : Bool
  written : ℕ
  landed : ℕ
  writeErrno : ℤ
  flushes : Bool
  flushErrno : ℤ
  closes : Bool
  closeErrno : ℤ
  stats : Bool
  written_le : written ≤ length
  landed_le : landed ≤ length
  flushed : flushes = true → landed = written

structure Chunk where
  instanceId : ℤ
  friendNumber : UInt32
  fileNumber : UInt32
  position : UInt64
  data : Bytes
  bounded : data.length < 2 ^ 64
  io : ChunkIo data.length

namespace Chunk

def key (c : Chunk) : Key := fileKey c.instanceId c.friendNumber c.fileNumber

def length (c : Chunk) : UInt64 := UInt64.ofNat c.data.length

/-- `Seek64` goes through. -/
def seeks (p : Platform) (c : Chunk) : Bool := decide (c.position ≤ p.maxOffset) && c.io.seeks

/-- What `WriteAt64` returns. -/
def written (p : Platform) (c : Chunk) : ℕ := if c.seeks p then c.io.written else 0

/-- What `WriteAt64` and the flush leave in the file. -/
def landed (p : Platform) (c : Chunk) : Bytes :=
  if c.seeks p then c.data.take c.io.landed else []

end Chunk

def hasExactFileSize (s : State) (path : Bytes) (expectedSize : UInt64) (stats : Bool) : Bool :=
  stats && s.disk.fileSize path == some expectedSize.toNat

/-- The branch of a chunk of length 0. -/
def finishReceive (p : Platform) (s : State) (c : Chunk) (ctx : RecvCtx) : State × List Effect :=
  let flushFails := ctx.fp.isSome && !c.io.flushes
  let closeFails := ctx.fp.isSome && !c.io.closes
  let closeOk := !flushFails && !closeFails
  let closeErrno := if flushFails then c.io.flushErrno else c.io.closeErrno
  let s := s.forget c.key
  if ctx.ioFailed || !closeOk || !hasExactFileSize s ctx.path ctx.size c.io.stats then
    let reason := if closeOk then .io else classifyWriteErrno p closeErrno
    (s.removeReceived ctx.path,
      [.enqueue c.key (.fileRecvFailed c.instanceId ctx.senderHex c.fileNumber reason)])
  else if ctx.size > 0 then
    (s, [.enqueue c.key (.progressRecv c.instanceId ctx.senderHex ctx.size ctx.size ctx.path),
      .enqueue c.key (.fileDone c.instanceId ctx.senderHex ctx.kind ctx.path)])
  else (s, [])

/-- The branch of a chunk inside the announced size whose file is open. -/
def writeChunk (p : Platform) (s : State) (c : Chunk) (ctx : RecvCtx) (fp : ℕ) :
    State × List Effect :=
  let written := c.written p
  let write := .write c.key fp c.position c.data.length written c.io.flushes
  let s :=
    { s with disk := s.disk.fill fp (overwrite 0 (s.disk.content fp) c.position.toNat (c.landed p)) }
  if written = c.data.length ∧ c.io.flushes = true then
    match checkedEndPosition c.position (UInt64.ofNat written) with
    | none => (s.put c.key { ctx with ioFailed := true }, [write, .markIoFailed c.key])
    | some receivedEnd =>
      (s.put c.key { ctx with received := receivedEnd },
        [write, .enqueue c.key
          (.progressRecv c.instanceId ctx.senderHex receivedEnd ctx.size ctx.path)])
  else
    let errno := if written = c.data.length then c.io.flushErrno else c.io.writeErrno
    let failed := failReceive s c.key c.fileNumber (classifyWriteErrno p errno)
    (failed.1, write :: failed.2)

/-- The callback of `setFileRecvChunkCallback`. -/
def fileRecvChunkCallback (p : Platform) (s : State) (c : Chunk) : State × List Effect :=
  match s.context c.key with
  | none => (s, [])
  | some ctx =>
    if c.length = 0 then finishReceive p s c ctx
    else
      match checkedWriteRange c.position c.length ctx.size with
      | none => (s.put c.key { ctx with ioFailed := true }, [.markIoFailed c.key])
      | some _ =>
        match ctx.fp with
        | none => (s, [])
        | some fp => writeChunk p s c ctx fp

/-! ## Runs -/

inductive Event where
  | offer (o : Offer)
  | control (instanceId : ℤ) (target : Except ℤ UInt32) (fileNumber : UInt32) (control : ℤ)
      (io : ControlIo)
  /-- The peer cancels. -/
  | canceled (instanceId : ℤ) (friendNumber fileNumber : UInt32) (senderHex : Bytes)
  | chunk (c : Chunk)
  | sessionEnd (instanceId : ℤ)
  | recvDir (dir : Bytes)
  /-- Everything else that changes what is on the disk. -/
  | outside (disk : Disk Bytes UInt8)

def step (p : Platform) (s : State) : Event → State × List Effect
  | .offer o => fileRecvCallback s o
  | .control instanceId target fileNumber control io =>
    ((fileControl p s instanceId target fileNumber control io).1, [])
  | .canceled instanceId friendNumber fileNumber senderHex =>
    let key := fileKey instanceId friendNumber fileNumber
    ((discardReceive s key).1, [.enqueue key (.fileCanceled senderHex fileNumber)])
  | .chunk c => fileRecvChunkCallback p s c
  | .sessionEnd instanceId => (eraseRecvContextsForInstance s instanceId, [])
  | .recvDir dir => ({ s with fileRecvDir := dir }, [])
  | .outside disk => ({ s with disk }, [])

/-- The state after a run and all that happened in it. -/
def run (p : Platform) : State → List Event → State × List Effect
  | s, [] => (s, [])
  | s, event :: events =>
    let next := step p s event
    let rest := run p next.1 events
    (rest.1, next.2 ++ rest.2)

end Tim2Tox.FileReceives
