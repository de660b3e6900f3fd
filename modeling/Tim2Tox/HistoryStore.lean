import Tim2Tox.HistoryUnread

set_option autoImplicit false

/-!
# The store of one conversation

What `MessageHistoryPersistence` keeps of one conversation in memory and on disk, under calls, timers,
restarts and the operations of its lock. Memory changes when a call is made; file operations wait in
the queue of the lock and take one step for each file they touch. A rename replaces a file at once; an
append to the archive and the copy to the backup can be cut short. Files are of this version, reads of
quit groups and `keepArchive` are left out, and a delete of a file succeeds.
-/
namespace Tim2Tox.HistoryStore
open ChatHistory ChatMessage

/-! ## Files -/

/-- A file written under its own name: a prefix of its bytes may be all there is, and the prefix may
    end inside a character. -/
inductive FileState where
  | absent
  | whole (file : HistoryFile)
  | torn
  | malformed
  deriving DecidableEq

/-- The archive: its lines, a row or what does not decode, and a last line without its end. A cut
    inside a character makes the whole file unreadable. -/
structure ArchiveFile where
  lines : List (Option ChatMessage) := []
  tail : Option (Option ChatMessage) := none
  malformed : Bool := false
  deriving DecidableEq

/-- Where an append was cut: after a line, inside one, before its end of line, inside a character. -/
inductive Cut where
  | boundary
  | fragment
  | unterminated
  | insideChar
  deriving DecidableEq

/-- Some text of the row is not ASCII. -/
def wide (m : ChatMessage) : Bool :=
  (m.text :: m.fromUserId :: ([m.groupId, m.filePath, m.fileName, m.mediaKind, m.msgID, m.mimeType,
    m.fileHash, m.cloudCustomData].reduceOption ++ m.altMsgIds)).any
      fun text => text.toList.any fun c => 127 < c.toNat

namespace ArchiveFile

/-- The rows a reader decodes. -/
def rows (a : ArchiveFile) : List ChatMessage :=
  if a.malformed then [] else a.lines.reduceOption ++ a.tail.join.toList

/-- The first line written continues a line that has no end; the two together do not decode. -/
def append (a : ArchiveFile) (batch : List ChatMessage) : ArchiveFile :=
  match a.tail, batch with
  | _, [] => a
  | none, batch => { a with lines := a.lines ++ batch.map some }
  | some _, _ :: rest => { a with lines := a.lines ++ none :: rest.map some, tail := none }

/-- An append cut after `k` whole lines. -/
def appendTorn (a : ArchiveFile) (batch : List ChatMessage) (k : ℕ) (cut : Cut) : Option ArchiveFile :=
  let a := a.append (batch.take k)
  match cut, batch[k]? with
  | .boundary, _ => some a
  | .fragment, some _ => some { a with tail := some none }
  | .unterminated, some m => some { a with tail := some (if a.tail = none then some m else none) }
  | .insideChar, some m => if wide m then some { a with tail := some none, malformed := true } else none
  | _, none => none

/-- The rewrite without the rows `hit` names ends every line it keeps. -/
def without (a : ArchiveFile) (hit : ChatMessage → Bool) : ArchiveFile :=
  { lines := (a.lines ++ a.tail.toList).filter fun line => !line.any hit }

end ArchiveFile

/-! ## Operations of the lock -/

/-- An appended row whose future has not completed, with its place in the log. -/
structure Ticket where
  number : ℕ
  message : ChatMessage
  deriving DecidableEq

/-- A call of `removeMessage`, with the length of the log when it was made. -/
structure Removal where
  msgID : String
  called : ℕ
  deriving DecidableEq

/-- A save: a copy of rows or the cached list itself, the last delete it covers, the appends whose
    futures complete with it and the removal that goes on in the archive after it. -/
structure Save where
  rows : Option (List ChatMessage)
  deleteSeqAtStart : ℕ
  waiters : List Ticket
  removal : Option (Removal × List String)
  deriving DecidableEq

inductive Op where
  | save (w : Save)
  | load
  | archived
  | removeRows (ids : List String) (cached : Bool) (r : Removal)
  | drain (waiters : List Ticket)
  | clear (called : ℕ)
  deriving DecidableEq

/-- An operation and the generation it was called in. -/
structure Job where
  op : Op
  token : ℕ
  deriving DecidableEq

/-- How far the operation that holds the lock has come. -/
inductive Phase where
  | waiting
  | copying
  | draining (batch : List ChatMessage) (gen : ℕ)
  | encoded (file : HistoryFile)
  | written (file : HistoryFile)
  | replaced
  | mainGone
  | backupGone
  deriving DecidableEq

inductive Entry where
  | added (message : ChatMessage)
  | updated (message : ChatMessage)
  | removed (rows : List ChatMessage)
  deriving DecidableEq

/-- The memory, the lock and the files of a conversation, and what an observer notes: the appends
    that completed, the calls so far, the removals and clears that completed, the rows the
    last step returned, and whether the cached list has the rows of the file (or a clear waits that
    leaves none). -/
structure Store where
  cache : Option (List ChatMessage) := none
  lastView : Option ℤ := none
  recentlyDeleted : List (String × ℕ) := []
  deleteSeq : ℕ := 0
  pendingArchive : List ChatMessage := []
  archiveCache : Option (List ChatMessage) := none
  debounce : Option (List Ticket) := none
  retry : Bool := false
  attempts : ℕ := 0
  dirtyAfterLoad : Bool := false
  gen : ℕ := 0
  jobs : List Job := []
  phase : Phase := .waiting
  main : Option HistoryFile := none
  temp : FileState := .absent
  backup : FileState := .absent
  archive : ArchiveFile := {}
  acked : List Ticket := []
  log : List Entry := []
  removals : List Removal := []
  clears : List ℕ := []
  returned : List ChatMessage := []
  merged : Bool := true
  deriving DecidableEq

inductive Copy where
  | skipped
  | done
  | torn
  | malformed
  deriving DecidableEq

inductive Event where
  | append (message : ChatMessage)
  | update (msgID : String) (updated : ChatMessage)
  | remove (msgID : String)
  | clear
  | load
  | archived
  | dropCache
  | debounced
  | retried
  | flushDirty
  | flush
  | refused
  | start (ok backupOk : Bool)
  | copied (c : Copy)
  | drained
  | drainFailed (k : ℕ) (cut : Cut)
  | tempWritten (ok : Bool)
  | renamed (ok : Bool)
  | finished
  | backupDeleted
  | archiveDeleted
  | crash
  deriving DecidableEq

namespace Store

def rows (s : Store) : List ChatMessage := s.cache.getD []

def isDeleted (s : Store) (id : String) : Bool := s.recentlyDeleted.any (·.1 = id)

def emptyIsADelete (s : Store) : Bool := s.cache = some [] && s.recentlyDeleted ≠ []

def maxSaveRetries : ℕ := 5

/-- No save waits for the lock. -/
def savesDone (s : Store) : Bool := s.jobs.all fun j => match j.op with
  | .save _ => false
  | _ => true

/-! ## Calls -/

def enqueue (s : Store) (op : Op) : Store := { s with jobs := s.jobs ++ [⟨op, s.gen⟩] }

/-- A save returns normally: the appends it stood for are done and its removal goes on. -/
def complete (s : Store) (w : Save) : Store :=
  let s := { s with acked := s.acked ++ w.waiters }
  match w.removal with
  | none => s
  | some (r, ids) => s.enqueue (.removeRows ids true r)

/-- `rows` is `none` for the cached list itself. -/
def saveHistory (s : Store) (rows : Option (List ChatMessage)) (waiters : List Ticket)
    (removal : Option (Removal × List String)) : Store :=
  let w : Save := { rows, deleteSeqAtStart := s.deleteSeq, waiters, removal }
  if rows.getD s.rows = [] && !s.emptyIsADelete then s.complete w else s.enqueue (.save w)

def resaveCached (s : Store) (waiters : List Ticket) : Store :=
  match s.cache with
  | none => { s with acked := s.acked ++ waiters }
  | some list => s.saveHistory (some list) waiters none

def scheduleDebouncedSave (s : Store) (waiters : List Ticket) : Store :=
  { s with debounce := some (s.debounce.getD [] ++ waiters) }

def armSaveRetry (s : Store) : Store :=
  { s with attempts := s.attempts + 1, retry := s.retry || s.attempts + 1 ≤ maxSaveRetries }

def noteRemovedFromCache (s : Store) (removed : List ChatMessage) : Store :=
  let ids := removed.flatMap ChatMessage.ids
  { s with
    deleteSeq := s.deleteSeq + 1
    recentlyDeleted := s.recentlyDeleted.filter (·.1 ∉ ids) ++ ids.map (·, s.deleteSeq + 1) }

def clearTombstonesUpTo (s : Store) (seq : ℕ) : Store :=
  { s with recentlyDeleted := s.recentlyDeleted.filter (seq < ·.2) }

/-- The operations that hold the cached list keep it when the store forgets it. -/
def detach (s : Store) : List Job :=
  s.jobs.map fun j => match j.op with
    | .save w => { j with op := .save { w with rows := some (w.rows.getD s.rows) } }
    | _ => j

def appendHistory (sent : Option (String → Bool)) (s : Store) (message : ChatMessage) : Store :=
  let (gone, kept) := appendWindow sent s.rows message
  let ticket : Ticket := ⟨s.log.length, message⟩
  let s := { s with
    cache := some kept
    pendingArchive := s.pendingArchive ++ gone
    log := s.log ++ [Entry.added message] }
  if gone = [] then s.scheduleDebouncedSave [ticket]
  else { s with debounce := none }.saveHistory (some kept) (s.debounce.getD [] ++ [ticket]) none

def updateMessage (sent : Option (String → Bool)) (s : Store) (msgID : String)
    (updated : ChatMessage) : Store :=
  if s.rows.any (idMatches · msgID) then
    { s with
      cache := some (updateRow sent s.rows msgID updated)
      log := s.log ++ [Entry.updated updated] }.saveHistory none [] none
  else s

def removeMessage (s : Store) (msgID : String) : Store :=
  let removed := s.rows.filter (idMatches · msgID)
  if removed = [] then s.enqueue (.removeRows [msgID] false ⟨msgID, s.log.length⟩)
  else
    let s := { s with
      cache := some (s.rows.filter fun m => !idMatches m msgID)
      log := s.log ++ [Entry.removed removed] }.noteRemovedFromCache removed
    s.saveHistory none [] (some (⟨msgID, s.log.length⟩, msgID :: removed.flatMap identitiesOf))

def clearHistory (s : Store) : Store :=
  { s with
    cache := none
    jobs := s.detach ++ [⟨.clear s.log.length, s.gen + 1⟩]
    gen := s.gen + 1
    recentlyDeleted := []
    dirtyAfterLoad := false
    pendingArchive := []
    archiveCache := none
    debounce := none
    acked := s.acked ++ s.debounce.getD []
    retry := false
    attempts := 0
    merged := true }

def removeCachedHistory (s : Store) : Store :=
  { s with
    cache := none
    jobs := s.detach
    merged := s.main = none && s.savesDone }

/-- Archived rows and the ones still queued, without what the memory has or has deleted. -/
def archivedView (s : Store) (diskRows : List ChatMessage) : List ChatMessage :=
  let combined := if s.pendingArchive = [] then diskRows
    else sortChatMessagesChronologically (dedupeByIdentity (diskRows ++ s.pendingArchive))
  combined.filter fun m =>
    !(identitiesOf m).any fun id => s.isDeleted id || s.rows.any fun r => id ∈ identitiesOf r

def loadArchivedHistory (s : Store) : Store :=
  match s.archiveCache with
  | some rows => { s with returned := s.archivedView rows }
  | none => s.enqueue .archived

def flushDirtyAfterLoad (s : Store) : Store :=
  let s := { s with dirtyAfterLoad := false }
  match s.cache with
  | none => s
  | some list => s.saveHistory (some list) [] none

/-- What a flush does with a conversation that owes a write. -/
def flushConversation (s : Store) : Store :=
  let waiters := s.debounce.getD []
  let s := { s with debounce := none, retry := false, dirtyAfterLoad := false }
  if s.rows = [] && !s.emptyIsADelete && s.pendingArchive ≠ [] then s.enqueue (.drain waiters)
  else s.resaveCached waiters

/-- The process dies: the files stay. -/
def crash (s : Store) : Store :=
  { main := s.main
    temp := s.temp
    backup := s.backup
    archive := s.archive
    acked := s.acked
    log := s.log
    removals := s.removals
    clears := s.clears
    merged := s.main = none }

/-! ## The operation that holds the lock -/

def next (s : Store) : Store := { s with jobs := s.jobs.tail, phase := .waiting }

/-- The operation throws; a save then arms its retry. -/
def fail (s : Store) (op : Op) : Store :=
  match op with
  | .save _ => s.next.armSaveRetry
  | _ => s.next

def installLoaded (s : Store) (messages : List ChatMessage) (legacyLayout : Bool) : Store :=
  let lastView := s.lastView.getD 0
  let installed := installLoadedHistory s.cache messages s.isDeleted lastView legacyLayout
  let s := { s with
    cache := installed.cache
    lastView := some lastView
    dirtyAfterLoad := s.dirtyAfterLoad || installed.dirty
    returned := installed.returned }
  if installed.schedule then s.scheduleDebouncedSave [] else s

def loadFromBackup (s : Store) (backupOk : Bool) : Store :=
  match s.backup with
  | .whole file =>
    if backupOk && file.messages ≠ [] then
      { s with lastView := s.lastView.or (some file.lastViewTimestamp) }.installLoaded file.messages true
    else s
  | _ => s

/-- The cached list has the rows of the file once the file was read with no save waiting. -/
def loadHistoryLocked (s : Store) (ok backupOk : Bool) : Store :=
  match s.main with
  | none => { s.loadFromBackup backupOk with merged := s.merged || s.savesDone }
  | some file =>
    if ok then
      { s with
        lastView := some file.lastViewTimestamp
        merged := s.merged || s.savesDone }.installLoaded file.messages false
    else s.loadFromBackup backupOk

def readArchive (s : Store) (ok : Bool) : Store :=
  if ok && !s.archive.malformed then
    let rows := sortChatMessagesChronologically (dedupeByIdentity (s.archive.rows.map notPending))
    { s with archiveCache := some rows, returned := s.archivedView rows }
  else { s with returned := s.archivedView [] }

def hits (ids : List String) (m : ChatMessage) : Bool := ids.any (idMatches m)

/-- The rows `removeRows` takes out of the archive and of the rows queued for it. -/
def archivedHits (s : Store) (ids : List String) : List ChatMessage :=
  s.archive.rows.filter (hits ids) ++ s.pendingArchive.filter (hits ids)

def removeArchivedRows (s : Store) (ids : List String) : Store :=
  { s with
    archive := if s.archive.rows.any (hits ids) then s.archive.without (hits ids) else s.archive
    pendingArchive := s.pendingArchive.filter fun m => !hits ids m
    archiveCache := none
    log := s.log ++ [.removed (s.archivedHits ids)] }

/-- `removeMessage` returns true; a row that was not cached gets its tombstone now. -/
def removeRowsLocked (s : Store) (ids : List String) (cached : Bool) (r : Removal) : Store :=
  let removed := s.archivedHits ids
  let s := s.removeArchivedRows ids
  if cached then { s with removals := s.removals ++ [r] }
  else if removed = [] then s
  else { s.noteRemovedFromCache removed with removals := s.removals ++ [r] }

def startJob (s : Store) (j : Job) (ok backupOk : Bool) : Store :=
  let stale := j.token ≠ s.gen
  match j.op with
  | .save w => if stale then s.next.complete w else { s with phase := .copying }
  | .load => if stale then s.next else (s.loadHistoryLocked ok backupOk).next
  | .archived => if stale then s.next else (s.readArchive ok).next
  | .removeRows ids cached r =>
    if stale then if cached then { s.next with removals := s.removals ++ [r] } else s.next
    else if ok && !s.archive.malformed then (s.removeRowsLocked ids cached r).next
    else { s.next with archiveCache := none }
  | .drain waiters =>
    if stale then { s.next with acked := s.acked ++ waiters }
    else { s with phase := .draining s.pendingArchive s.gen }
  | .clear _ => { s with main := none, phase := .mainGone }

def copyToBackup (s : Store) (c : Copy) : Option Store :=
  match s.main, c with
  | _, .skipped => some s
  | none, _ => none
  | some file, .done => some { s with backup := .whole file }
  | some _, .torn => some { s with backup := .torn }
  | some file, .malformed =>
    if file.messages.any wide then some { s with backup := .malformed } else none

/-- The rows written leave the queue for the archive, by identity: a clear has replaced the queue. -/
def drainDone (s : Store) (batch : List ChatMessage) (gen : ℕ) : Store :=
  if batch = [] then s
  else
    { s with
      archive := s.archive.append batch
      pendingArchive := if gen = s.gen then s.pendingArchive.drop batch.length else s.pendingArchive
      archiveCache := none }

def encode (s : Store) (w : Save) : HistoryFile :=
  { lastViewTimestamp := s.lastView.getD 0, messages := w.rows.getD s.rows }

/-! ## Steps -/

def jobStep (s : Store) (j : Job) : Event → Option Store
  | .refused =>
    if s.phase = .waiting && (s.main ≠ none || s.backup ≠ .absent) then some (s.fail j.op) else none
  | .start ok backupOk =>
    if s.phase ≠ .waiting then none
    else if s.backup = .malformed then some (s.fail j.op)
    else some (s.startJob j ok backupOk)
  | .copied c =>
    if s.phase = .copying then
      (s.copyToBackup c).map fun s => { s with phase := .draining s.pendingArchive s.gen }
    else none
  | .drained =>
    match s.phase, j.op with
    | .draining batch gen, .save w =>
      let s := s.drainDone batch gen
      some { s with phase := .encoded (s.encode w) }
    | .draining batch gen, .drain waiters =>
      let s := s.drainDone batch gen
      some { s.next with acked := s.acked ++ waiters }
    | _, _ => none
  | .drainFailed k cut =>
    match s.phase with
    | .draining batch _ =>
      if batch = [] then none
      else (s.archive.appendTorn batch k cut).map fun archive => { s with archive }.fail j.op
    | _ => none
  | .tempWritten ok =>
    match s.phase with
    | .encoded file =>
      if ok then some { s with temp := .whole file, phase := .written file }
      else some ({ s with temp := .torn }.fail j.op)
    | _ => none
  | .renamed ok =>
    match s.phase, j.op with
    | .written file, .save w =>
      if ok then
        some { s.clearTombstonesUpTo w.deleteSeqAtStart with
          main := some file, temp := .absent, phase := .replaced }
      else some (s.fail j.op)
    | _, _ => none
  | .finished =>
    match s.phase, j.op with
    | .replaced, .save w =>
      some ({ s.next with backup := .absent, attempts := 0, retry := false }.complete w)
    | _, _ => none
  | .backupDeleted =>
    if s.phase = .mainGone then some { s with backup := .absent, phase := .backupGone } else none
  | .archiveDeleted =>
    match s.phase, j.op with
    | .backupGone, .clear called =>
      some { s.next with
        pendingArchive := [], archiveCache := none, archive := {}, clears := s.clears ++ [called] }
    | _, _ => none
  | _ => none

def act (sent : Option (String → Bool)) (s : Store) : Event → Option Store
  | .append message => some (s.appendHistory sent message)
  | .update msgID updated => some (s.updateMessage sent msgID updated)
  | .remove msgID => some (s.removeMessage msgID)
  | .clear => some s.clearHistory
  | .load => some (s.enqueue .load)
  | .archived => some s.loadArchivedHistory
  | .dropCache => some s.removeCachedHistory
  | .debounced => s.debounce.map fun waiters => { s with debounce := none }.resaveCached waiters
  | .retried => if s.retry then some ({ s with retry := false }.resaveCached []) else none
  | .flushDirty => if s.dirtyAfterLoad then some s.flushDirtyAfterLoad else none
  | .flush => some s.flushConversation
  | .crash => some s.crash
  | e => s.jobs.head?.bind fun j => s.jobStep j e

def step (sent : Option (String → Bool)) (s : Store) (e : Event) : Option Store :=
  { s with returned := [] }.act sent e

end Store
end Tim2Tox.HistoryStore
