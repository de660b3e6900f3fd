import Tim2Tox.FileReceives

set_option autoImplicit false

/-!
# Cancelled receives

What the cancelling of receives removes: the native side removes the names of the context, and the
service has deletions of the paths in its own table run later. A ledger beside the state says which
receive made a file.
-/
namespace Tim2Tox.FileCancels
open FileDisks StorageNames KeyedTables FileReceives

/-! ## ffi_chat_service.dart -/

/-- A receive: its key, and how many offers have left a context under it. -/
abbrev Transfer := Key × ℕ

structure Progress where
  received : UInt64
  total : UInt64
  msgID : Bytes
  fileName : Bytes
  tempPath : Option Bytes
  actualPath : Option Bytes
  /-- The receive whose request made the row. -/
  transfer : Transfer
  deriving DecidableEq

/-- The peer and the file number. -/
abbrev RowKey := Bytes × UInt32

structure Service where
  fileRecvDir : Option Bytes
  fileReceiveProgress : AList fun _ : RowKey => Progress
  pendingFileTransfers : AList fun _ : RowKey => Bytes
  fileNumberToMsgID : AList fun _ : RowKey => Bytes
  lastProgressTs : AList fun _ : RowKey => ℕ
  pausedTransfers : List RowKey
  /-- Deletions that nobody waits for. -/
  deletions : List (Transfer × Bytes)

namespace Service

/-- What a file request leaves; `msgID` is `<timestamp>_<sequence>_<uid>`. -/
def fileRequest (d : Service) (transfer : Transfer) (uid : Bytes) (fileNumber : UInt32)
    (fileName : Bytes) (fileSize : UInt64) (msgID : Bytes) (now : ℕ) : Service :=
  let tempPath := d.fileRecvDir.getD ("/tmp".toList.map Char.toUInt8) ++
    "/receiving_".toList.map Char.toUInt8 ++ msgID ++ 95 :: fileName
  let key := (uid, fileNumber)
  { d with
    fileReceiveProgress :=
      d.fileReceiveProgress.insert key ⟨0, fileSize, msgID, fileName, some tempPath, none, transfer⟩
    lastProgressTs := d.lastProgressTs.insert key now
    pendingFileTransfers := d.pendingFileTransfers.insert key msgID
    fileNumberToMsgID := d.fileNumberToMsgID.insert key msgID }

/-- A progress line, or a finished move, puts its path into the row it takes for its own. -/
def recorded (d : Service) (key : RowKey) (received total : UInt64) (path : Bytes) : Service :=
  match d.fileReceiveProgress.lookup key with
  | none => d
  | some progress =>
    { d with
      fileReceiveProgress := d.fileReceiveProgress.insert key
        { progress with received := received, total := total, actualPath := some path } }

/-- The tables part of `_markFileTransferFailed`, and what a finished receive takes out of them. -/
def forget (d : Service) (keys : List RowKey) : Service :=
  { d with
    fileReceiveProgress := eraseAll keys d.fileReceiveProgress
    pendingFileTransfers := eraseAll keys d.pendingFileTransfers
    fileNumberToMsgID := eraseAll keys d.fileNumberToMsgID
    lastProgressTs := eraseAll keys d.lastProgressTs
    pausedTransfers := d.pausedTransfers.filter fun key => !keys.contains key }

inductive Control where
  | cancel
  | timeout
  | pause
  | resume
  deriving DecidableEq

def candidates (progress : Progress) : List Bytes :=
  (progress.tempPath.toList ++ progress.actualPath.toList).filter fun path => !path.isEmpty

/-- `_handleFileControl`; `normalized` is `uid`, cut by `_normalizeFriendId` when it is longer than
    64. -/
def handleFileControl (d : Service) (uid normalized : Bytes) (fileNumber : UInt32)
    (control : Control) (now : ℕ) : Service :=
  let key := (normalized, fileNumber)
  let altKey := (uid, fileNumber)
  match control with
  | .cancel | .timeout =>
    let progress := (d.fileReceiveProgress.lookup key).or (d.fileReceiveProgress.lookup altKey)
    let deletions := progress.toList.flatMap fun progress =>
      (candidates progress).map fun path => (progress.transfer, path)
    { d with deletions := d.deletions ++ deletions }.forget [key, altKey]
  | .pause => { d with pausedTransfers := key :: d.pausedTransfers }
  | .resume =>
    { d with
      pausedTransfers := d.pausedTransfers.filter fun paused => paused != key && paused != altKey
      lastProgressTs := d.lastProgressTs.insert key now }

end Service

/-! ## Runs -/

structure Ledger where
  generation : Key → ℕ
  /-- The receive whose accept made a file. -/
  creator : ℕ → Option Transfer
  /-- Files of receives that were open and ended in full. -/
  complete : ℕ → Bool

namespace Ledger

def current (l : Ledger) (key : Key) : Transfer := (key, l.generation key)

def leavesContext (o : Offer) : Bool :=
  !o.isAvatarDeletion && (o.kind != avatarKind || o.fileId.isSome)

/-- What an event between two states of the native side adds. -/
def note (l : Ledger) (s s' : State) : FileReceives.Event → Ledger
  | .offer o =>
    if leavesContext o then
      { l with generation := Function.update l.generation o.key (l.generation o.key + 1) }
    else l
  | .control instanceId (.ok friendNo) fileNumber _ _ =>
    { l with
      creator := fun file =>
        if s.disk.fresh ≤ file ∧ file < s'.disk.fresh then
          some (l.current (fileKey instanceId friendNo fileNumber))
        else l.creator file }
  | .chunk c =>
    match s.context c.key with
    | none => l
    | some ctx =>
      if c.length = 0 ∧ ctx.fp ≠ none then
        { l with
          complete := fun file => l.complete file || decide (s'.disk.entry ctx.path = some file) }
      else l
  | _ => l

end Ledger

structure System where
  native : State
  service : Service
  ledger : Ledger

inductive Event where
  | native (event : FileReceives.Event)
  | fileRequest (transfer : Transfer) (uid : Bytes) (fileNumber : UInt32) (fileName : Bytes)
      (fileSize : UInt64) (msgID : Bytes) (now : ℕ)
  | recorded (key : RowKey) (received total : UInt64) (path : Bytes)
  | finished (keys : List RowKey)
  | fileControl (uid normalized : Bytes) (fileNumber : UInt32) (control : Service.Control) (now : ℕ)
  /-- One of the deletions runs. -/
  | deletion (n : ℕ)

def step (p : Platform) (s : System) : Event → System
  | .native event =>
    let native := (FileReceives.step p s.native event).1
    { s with native, ledger := s.ledger.note s.native native event }
  | .fileRequest transfer uid fileNumber fileName fileSize msgID now =>
    { s with service := s.service.fileRequest transfer uid fileNumber fileName fileSize msgID now }
  | .recorded key received total path =>
    { s with service := s.service.recorded key received total path }
  | .finished keys => { s with service := s.service.forget keys }
  | .fileControl uid normalized fileNumber control now =>
    { s with service := s.service.handleFileControl uid normalized fileNumber control now }
  | .deletion n =>
    match s.service.deletions[n]? with
    | none => s
    | some (_, path) =>
      { s with
        native := { s.native with disk := s.native.disk.unlink path }
        service := { s.service with deletions := s.service.deletions.eraseIdx n } }

/-! ## What is to be kept -/

/-- A chunk whose write fails. -/
def writeFails (p : Platform) (s : State) (c : Chunk) : Bool :=
  match s.context c.key with
  | none => false
  | some ctx =>
    c.length != 0 && (checkedWriteRange c.position c.length ctx.size).isSome && ctx.fp.isSome &&
      !(c.written p == c.data.length && c.io.flushes)

/-- The key whose receive an event discards. -/
def discards (p : Platform) (s : State) : FileReceives.Event → Option Key
  | .canceled instanceId friendNumber fileNumber _ => some (fileKey instanceId friendNumber fileNumber)
  | .control instanceId (.ok friendNo) fileNumber control io =>
    if control = 2 ∧ io.controlled = true then some (fileKey instanceId friendNo fileNumber) else none
  | .chunk c => if writeFails p s c then some c.key else none
  | _ => none

/-- The receive for which an event removes files. -/
def remover (p : Platform) (s : System) : Event → Option Transfer
  | .native event => (discards p s.native event).map s.ledger.current
  | .deletion n => s.service.deletions[n]?.map Prod.fst
  | _ => none

/-- What a cancelled receive removes are files its own accept made, and no completed one. -/
def Proper (p : Platform) (s : System) (event : Event) : Prop :=
  ∀ transfer, remover p s event = some transfer → ∀ name file,
    s.native.disk.entry name = some file →
    (step p s event).native.disk.entry name ≠ some file →
    s.ledger.creator file = some transfer ∧ s.ledger.complete file = false

def AllProper (p : Platform) : System → List Event → Prop
  | _, [] => True
  | s, event :: events => Proper p s event ∧ AllProper p (step p s event) events

/-! ## When it is kept -/

def names (ctx : RecvCtx) : List Bytes := [ctx.path, receiveMarkerPath ctx.path]

/-- Another receive that is open has the name. -/
def openElsewhere (s : State) (key : Key) (name : Bytes) : Bool :=
  s.recvFiles.entries.any fun entry =>
    decide (entry.1 ≠ key) && entry.2.fp.isSome && (names entry.2).contains name

/-- An accept that opens finds no file under its names, and no open receive has them. -/
def acceptFits (s : State) (key : Key) : Bool :=
  match s.context key with
  | none => true
  | some ctx =>
    ctx.fp.isSome ||
      (names ctx).all fun name => (s.disk.entry name).isNone && !openElsewhere s key name

/-- A receive that is not open is cancelled only while nothing is under its names. -/
def cancelFits (s : State) (key : Key) : Bool :=
  match s.context key with
  | none => true
  | some ctx => ctx.fp.isSome || (names ctx).all fun name => (s.disk.entry name).isNone

/-- The path is that of the receive, which is still open. -/
def ownPath (s : System) (transfer : Transfer) (path : Bytes) : Bool :=
  match s.native.context transfer.1 with
  | none => false
  | some ctx =>
    decide (s.ledger.generation transfer.1 = transfer.2) && ctx.fp.isSome && decide (ctx.path = path)

def Fits (s : System) : Event → Prop
  | .native (.control instanceId (.ok friendNo) fileNumber control io) =>
    (control = 0 → acceptFits s.native (fileKey instanceId friendNo fileNumber) = true) ∧
    (control = 2 → io.controlled = true →
      cancelFits s.native (fileKey instanceId friendNo fileNumber) = true)
  | .native (.canceled instanceId friendNumber fileNumber _) =>
    cancelFits s.native (fileKey instanceId friendNumber fileNumber) = true
  | .native (.outside disk) =>
    s.native.disk.fresh ≤ disk.fresh ∧
      ∀ key ctx, s.native.context key = some ctx → ctx.fp ≠ none → ∀ name ∈ names ctx, ∀ file,
        disk.entry name = some file → s.native.disk.entry name = some file
  | .deletion n =>
    ∀ transfer path, s.service.deletions[n]? = some (transfer, path) →
      s.native.disk.entry path = none ∨ ownPath s transfer path = true
  | _ => True

def AllFit (p : Platform) : System → List Event → Prop
  | _, [] => True
  | s, event :: events => Fits s event ∧ AllFit p (step p s event) events

/-- No receive yet, whatever is on the disk. -/
structure Start (s : System) : Prop where
  contexts : s.native.recvFiles = ∅
  creators : ∀ file, s.ledger.creator file = none
  complete : ∀ file, s.ledger.complete file = false

end Tim2Tox.FileCancels
