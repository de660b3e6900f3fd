import Mathlib.Data.List.AList
import Tim2Tox.FaultyPrograms
import Tim2Tox.OfflineQueue

set_option autoImplicit false

/-!
# The files of the offline message queue

`OfflineMessageQueuePersistence` with its file store: the queue as JSON, the primary file with its
backup and the two staging files, and every operation as a program of file steps. A file holds what
`jsonDecode` makes of its text.
-/
namespace Tim2Tox.QueueFiles

open FaultyPrograms (Prog)
open OfflineQueue (ContentKind)

/-! ## Items and their JSON -/

inductive Json where
  | null
  | bool (value : Bool)
  | number (text : String)
  | text (value : String)
  | list (items : List Json)
  | object (entries : List (String × Json))

/-- The ISO text of a time can be parsed back. -/
structure Iso8601 (DateTime : Type) where
  toIso8601String : DateTime → String
  parse : String → Option DateTime
  parse_toIso8601String : ∀ time, parse (toIso8601String time) = some time

structure OfflineMessageItem (DateTime : Type) where
  kind : String
  text : String
  filePath : Option String := none
  fileName : Option String := none
  timestamp : DateTime
  msgID : Option String := none
  cloudCustomData : Option String := none
  contentKind : ContentKind := .normal
  control : Option String := none
  deriving DecidableEq

/-- Peer to queued items, in the order in which the peers came in. -/
abbrev Queue (DateTime : Type) : Type := AList fun _ : String => List (OfflineMessageItem DateTime)

variable {DateTime : Type}

def optionalText : Option String → Json
  | none => .null
  | some value => .text value

def contentKindName : ContentKind → String
  | .normal => "normal"
  | .action => "action"
  | .custom => "custom"

def chatMessageContentKindFromJson : Json → ContentKind
  | .text "action" => .action
  | .text "custom" => .custom
  | _ => .normal

def field (json : List (String × Json)) (key : String) : Json := (json.lookup key).getD .null

def requiredString (json : List (String × Json)) (key : String) : Option String :=
  match field json key with
  | .text value => some value
  | _ => none

/-- `none` for a value that is neither missing nor a text. -/
def optionalString (json : List (String × Json)) (key : String) : Option (Option String) :=
  match field json key with
  | .null => some none
  | .text value => some (some value)
  | _ => none

section
variable (iso : Iso8601 DateTime)

/-- Custom data and control have no key when there are none. -/
def itemFields (item : OfflineMessageItem DateTime) : List (String × Json) :=
  [("kind", .text item.kind), ("text", .text item.text),
    ("filePath", optionalText item.filePath), ("fileName", optionalText item.fileName),
    ("timestamp", .text (iso.toIso8601String item.timestamp)), ("msgID", optionalText item.msgID)] ++
  (item.cloudCustomData.map fun data => ("cloudCustomData", Json.text data)).toList ++
  [("contentKind", .text (contentKindName item.contentKind))] ++
  (item.control.map fun control => ("control", Json.text control)).toList

def itemToJson (item : OfflineMessageItem DateTime) : Json := .object (itemFields iso item)

def itemFromJson : Json → Option (OfflineMessageItem DateTime)
  | .object raw => do
    let filePath ← optionalString raw "filePath"
    let rawKind ← optionalString raw "kind"
    let text ← optionalString raw "text"
    let fileName ← optionalString raw "fileName"
    let timestamp ← (requiredString raw "timestamp").bind iso.parse
    let msgID ← optionalString raw "msgID"
    let cloudCustomData ← optionalString raw "cloudCustomData"
    let control ← optionalString raw "control"
    return {
      kind := rawKind.getD (if filePath.getD "" ≠ "" then "file" else "text")
      text := text.getD ""
      filePath, fileName, timestamp, msgID, cloudCustomData
      contentKind := chatMessageContentKindFromJson (field raw "contentKind")
      control }
  | _ => none

/-- `queue[peerId] = items`. -/
def assign (peerId : String) (items : List (OfflineMessageItem DateTime)) (queue : Queue DateTime) :
    Queue DateTime :=
  if h : peerId ∈ queue then queue.replace peerId items
  else ⟨queue.entries ++ [⟨peerId, items⟩], by
    rw [List.nodupKeys_middle, List.append_nil]
    exact List.nodupKeys_cons.mpr ⟨h, queue.nodupKeys⟩⟩

def toJson (snapshot : Queue DateTime) : Json :=
  .object (snapshot.entries.map fun entry => (entry.1, .list (entry.2.map (itemToJson iso))))

def fromEntries : Queue DateTime → List (String × Json) → Option (Queue DateTime)
  | queue, [] => some queue
  | queue, (peerId, .list rawList) :: entries =>
    (rawList.mapM (itemFromJson iso)).bind fun items => fromEntries (assign peerId items queue) entries
  | _, _ => none

/-- The text of a file: JSON, or nothing that parses (empty, or written in part). -/
inductive Contents where
  | json (value : Json)
  | unreadable

def readSnapshot : Contents → Option (Queue DateTime)
  | .json (.object entries) => fromEntries iso ∅ entries
  | _ => none

end

/-! ## The file store -/

inductive File where
  | primary
  | backup
  | temp
  | backupTemp
  deriving DecidableEq

structure Store (DateTime : Type) where
  files : File → Option Contents
  /-- The queue in memory. -/
  cache : Queue DateTime

namespace Store

def put (s : Store DateTime) (file : File) (contents : Option Contents) : Store DateTime :=
  { s with files := Function.update s.files file contents }

/-- `staging.rename(target.path)`. -/
def move (s : Store DateTime) (staging target : File) : Store DateTime :=
  (s.put target (s.files staging)).put staging none

def replaceCache (s : Store DateTime) (snapshot : Queue DateTime) : Store DateTime :=
  { s with cache := snapshot }

end Store

/-- A file operation that changes no file: a directory made, a flush, a close. -/
def touch : Prog (Store DateTime) Unit := .step id id (fun _ => .done ()) .throw

def exists_ (file : File) : Prog (Store DateTime) Bool :=
  .step id id (fun s => .done (s.files file).isSome) .throw

/-- Reading a file that is not there throws. -/
def read (file : File) : Prog (Store DateTime) Contents :=
  .step id id (fun s => match s.files file with
    | some contents => .done contents
    | none => .throw) .throw

/-- Opening a file for writing truncates it. -/
def openWrite (file : File) : Prog (Store DateTime) Unit :=
  .step (·.put file (some .unreadable)) id (fun _ => .done ()) .throw

def write (file : File) (contents : Contents) : Prog (Store DateTime) Unit :=
  .step (·.put file (some contents)) (·.put file (some .unreadable)) (fun _ => .done ()) .throw

def rename (staging target : File) : Prog (Store DateTime) Unit :=
  .memory id fun s =>
    if (s.files staging).isSome then
      .step (·.move staging target) id (fun _ => .done ()) .throw
    else .throw

def delete (file : File) : Prog (Store DateTime) Unit :=
  .step (·.put file none) id (fun _ => .done ()) .throw

/-- The queue in memory, read without a file operation. -/
def cached : Prog (Store DateTime) (Queue DateTime) := .memory id fun s => .done s.cache

def replaceCache (snapshot : Queue DateTime) : Prog (Store DateTime) Unit :=
  .memory (·.replaceCache snapshot) fun _ => .done ()

/-- The end of both atomic writes: the staging file is written, closed and renamed. -/
def stageAndRename (target staging : File) (content : Contents) : Prog (Store DateTime) Unit := do
  openWrite staging
  Prog.tryFinally (do write staging content; touch) touch
  rename staging target

def writeStringAtomically (target staging : File) (content : Contents) :
    Prog (Store DateTime) Unit := do
  touch
  stageAndRename target staging content

def copyFileAtomically (source target staging : File) : Prog (Store DateTime) Unit := do
  touch
  let bytes ← read source
  stageAndRename target staging bytes

def copyPrimaryToBackup : Prog (Store DateTime) Unit :=
  copyFileAtomically .primary .backup .backupTemp

def deleteIfExists (target : File) : Prog (Store DateTime) Unit := do
  if ← exists_ target then delete target

def deleteStagingArtifacts : Prog (Store DateTime) Unit := do
  deleteIfExists .temp
  deleteIfExists .backupTemp

def deleteArtifacts : Prog (Store DateTime) Unit := do
  deleteIfExists .primary
  deleteIfExists .backup
  deleteStagingArtifacts

def restorePrimaryFromBackup : Prog (Store DateTime) Unit := do
  let content ← read .backup
  writeStringAtomically .primary .temp content

section
variable (iso : Iso8601 DateTime)

def writeSnapshot (snapshot : Queue DateTime) : Prog (Store DateTime) Unit := do
  if ← exists_ .primary then copyPrimaryToBackup
  writeStringAtomically .primary .temp (.json (toJson iso snapshot))
  Prog.tryCatch copyPrimaryToBackup (pure ())

def publishEmptyPrimary : Prog (Store DateTime) Unit :=
  writeStringAtomically .primary .temp (.json (toJson iso ∅))

/-- `none` for a failure; only the look whether the file is there can throw. -/
def tryReadSnapshot (source : File) : Prog (Store DateTime) (Option (Queue DateTime)) := do
  if ← exists_ source then
    Prog.tryCatch (do return readSnapshot iso (← read source)) (pure none)
  else return none

/-! ## The operations -/

/-- `_getQueueFile` makes the directory where it is missing. -/
def getQueueFile : Prog (Store DateTime) Unit := touch

def saveSnapshot (snapshot : Queue DateTime) : Prog (Store DateTime) Unit := do
  getQueueFile
  writeSnapshot iso snapshot

def restoreBackup (snapshot : Queue DateTime) : Prog (Store DateTime) (Queue DateTime) := do
  restorePrimaryFromBackup
  deleteStagingArtifacts
  replaceCache snapshot
  return snapshot

def loadQueue (clearOnLoad : Bool) : Prog (Store DateTime) (Queue DateTime) := do
  getQueueFile
  if clearOnLoad then
    deleteArtifacts
    replaceCache ∅
    return ∅
  else if ← exists_ .primary then
    match ← tryReadSnapshot iso .primary with
    | some snapshot =>
      deleteStagingArtifacts
      replaceCache snapshot
      return snapshot
    | none =>
      match ← tryReadSnapshot iso .backup with
      | some snapshot => restoreBackup snapshot
      | none => .throw
  else if ← exists_ .backup then
    match ← tryReadSnapshot iso .backup with
    | some snapshot => restoreBackup snapshot
    | none => .throw
  else
    deleteStagingArtifacts
    replaceCache ∅
    return ∅

def clearQueueFile : Prog (Store DateTime) Unit := do
  getQueueFile
  publishEmptyPrimary iso
  replaceCache ∅
  copyPrimaryToBackup
  deleteArtifacts

end

/-- The calls, with what they were handed when they were submitted. -/
inductive Operation (DateTime : Type) where
  | saveQueue (queue : Queue DateTime)
  | loadQueue
  | addMessage (peerId : String) (item : OfflineMessageItem DateTime)
  | removeMessages (peerId : String)
  | removeItem (peerId : String) (item : OfflineMessageItem DateTime)
  | replaceItem (peerId : String) (old updated : OfflineMessageItem DateTime)
  | clearQueue
  | clearQueueFile

variable [DecidableEq DateTime]

/-- The snapshot an operation makes of the queue in memory, or `none` when it has nothing to write. -/
def Operation.snapshot (cache : Queue DateTime) : Operation DateTime → Option (Queue DateTime)
  | .saveQueue queue => some queue
  | .loadQueue => none
  | .addMessage peerId item => some (assign peerId ((cache.lookup peerId).getD [] ++ [item]) cache)
  | .removeMessages peerId => if peerId ∈ cache then some (cache.erase peerId) else none
  | .removeItem peerId item =>
    let list := (cache.lookup peerId).getD []
    if item ∈ list then
      if list.erase item = [] then some (cache.erase peerId)
      else some (assign peerId (list.erase item) cache)
    else none
  | .replaceItem peerId old updated =>
    let list := (cache.lookup peerId).getD []
    if old ∈ list then some (assign peerId (list.replace old updated) cache) else none
  | .clearQueue => some ∅
  | .clearQueueFile => some ∅

inductive Reply (DateTime : Type) where
  | unit
  | flag (value : Bool)
  | queue (value : Queue DateTime)

/-- What the caller is told: `replaceItem` says whether it wrote. -/
def Operation.reply (written : Bool) : Operation DateTime → Reply DateTime
  | .replaceItem .. => .flag written
  | _ => .unit

/-- An operation on the queue in memory: its snapshot is written and then taken over. -/
def Operation.mutate (iso : Iso8601 DateTime) (op : Operation DateTime) :
    Prog (Store DateTime) (Reply DateTime) := do
  match op.snapshot (← cached) with
  | none => return op.reply false
  | some snapshot =>
    saveSnapshot iso snapshot
    replaceCache snapshot
    return op.reply true

def Operation.program (iso : Iso8601 DateTime) :
    Operation DateTime → Prog (Store DateTime) (Reply DateTime)
  | .loadQueue => do return .queue (← QueueFiles.loadQueue iso false)
  | .clearQueueFile => do
    QueueFiles.clearQueueFile iso
    return .unit
  | op => op.mutate iso

end Tim2Tox.QueueFiles
