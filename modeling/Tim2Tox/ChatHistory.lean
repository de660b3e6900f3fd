import Mathlib.Data.Int.Notation
import Mathlib.Data.List.Lex
import Mathlib.Data.List.Sort
import Mathlib.Logic.Function.Basic

set_option autoImplicit false

/-!
# Rows of a conversation's history

`ChatMessage` and the pure half of `MessageHistoryPersistence`: what identifies a row, how two
copies of one message merge, how rows read from disk collapse, where an appended row goes and what
a load installs. Instants are microseconds since the epoch; the polling instance of a live event is
never persisted and is left out.
-/
namespace Tim2Tox.ChatHistory

inductive ContentKind where
  | normal
  | action
  | custom
  deriving DecidableEq

structure ChatMessage where
  text : String
  fromUserId : String
  isSelf : Bool
  timestamp : ℤ
  groupId : Option String := none
  filePath : Option String := none
  fileName : Option String := none
  mediaKind : Option String := none
  contentKind : ContentKind := .normal
  isPending : Bool := false
  isFailed : Bool := false
  isCancelled : Bool := false
  isReceived : Bool := false
  isRead : Bool := false
  msgID : Option String := none
  version : ℤ := 1
  fileSize : Option ℤ := none
  mimeType : Option String := none
  fileHash : Option String := none
  altMsgIds : List String := []
  cloudCustomData : Option String := none
  needReadReceipt : Bool := false
  deriving DecidableEq

namespace ChatMessage

/-- `millisecondsSinceEpoch`, which truncates. -/
def millis (m : ChatMessage) : ℤ := m.timestamp.tdiv 1000

/-- The segments of a path, its last one the basename. -/
def segments (path : String) : List (List Char) :=
  let parts := (path.toList.splitOn '/').filter fun part => !part.isEmpty
  if path.toList.head? = some '/' then ['/'] :: parts else parts

def isTempPath (m : ChatMessage) : Bool :=
  match m.filePath with
  | none => false
  | some path =>
    "receiving_".toList.isPrefixOf ((segments path).getLastD []) ||
      "file_recv".toList ∈ (segments path).dropLast ||
      "/tmp/".toList.isPrefixOf path.toList

/-- The ids a row carries: its primary id and its aliases. -/
def ids (m : ChatMessage) : List String := m.msgID.toList ++ m.altMsgIds

/-- The primary identity; a row without an id is known by its instant and sender. -/
def primary (m : ChatMessage) : String :=
  m.msgID.getD (toString m.millis ++ "_" ++ m.fromUserId)

end ChatMessage

open ChatMessage

def identitiesOf (m : ChatMessage) : List String := m.primary :: m.altMsgIds

def idMatches (m : ChatMessage) (id : String) : Bool := m.msgID = some id || id ∈ m.altMsgIds

def toxGroupMessageAliasPrefix : String := "gmid:"

def isGroupAlias (id : String) : Bool := toxGroupMessageAliasPrefix.toList.isPrefixOf id.toList

def toxGroupMessageAliasOf (m : ChatMessage) : Option String :=
  (m.altMsgIds.find? isGroupAlias).or (m.msgID.filter isGroupAlias)

/-- `none` when a side has no group identity. -/
def chatMessagesShareGroupIdentity (a b : ChatMessage) : Option Bool :=
  match toxGroupMessageAliasOf a, toxGroupMessageAliasOf b with
  | some x, some y => some (x = y)
  | _, _ => none

def sortChatMessagesChronologically (rows : List ChatMessage) : List ChatMessage :=
  rows.insertionSort fun a b => a.timestamp ≤ b.timestamp

/-! ## Two copies of one message -/

/-- The UTF-16 code units by which strings compare. -/
def codeUnits (s : String) : List ℕ :=
  s.toList.flatMap fun c =>
    if c.toNat < 0x10000 then [c.toNat]
    else [0xD800 + (c.toNat - 0x10000) / 0x400, 0xDC00 + (c.toNat - 0x10000) % 0x400]

/-- The elements of a set of ids in order. -/
def sortedIds (ids : List String) : List String :=
  ids.dedup.insertionSort fun a b => codeUnits a ≤ codeUnits b

/-- Either copy's failure, unless it was delivered or went out this session. -/
def mergedFailure (a b : ChatMessage) (isReceived isRead : Bool) (sent : Option (String → Bool)) :
    Bool :=
  if !a.isFailed && !b.isFailed then false
  else if isReceived || isRead then false
  else match sent with
    | none => true
    | some sent => !(a.msgID.toList ++ b.msgID.toList).any sent

def mergedKind (a b : ChatMessage) (otherwise : ContentKind) : ContentKind :=
  if a.contentKind = .action || b.contentKind = .action then .action else otherwise

def mergeMessages (sent : Option (String → Bool)) (existing updated : ChatMessage) : ChatMessage :=
  let isReceived := updated.isReceived || existing.isReceived
  let isRead := updated.isRead || existing.isRead
  let mergedMsgID := updated.msgID.or existing.msgID
  { text := if updated.text.isEmpty then existing.text else updated.text
    fromUserId := updated.fromUserId
    isSelf := updated.isSelf
    timestamp := if updated.timestamp > existing.timestamp then updated.timestamp
      else existing.timestamp
    groupId := updated.groupId.or existing.groupId
    filePath := if updated.isTempPath && !existing.isTempPath then existing.filePath
      else if !updated.isTempPath then updated.filePath else existing.filePath
    fileName := updated.fileName.or existing.fileName
    mediaKind := updated.mediaKind.or existing.mediaKind
    contentKind := mergedKind updated existing .normal
    isPending := updated.isPending && existing.isPending
    isFailed := mergedFailure existing updated isReceived isRead sent
    isCancelled := updated.isCancelled || existing.isCancelled
    isReceived
    isRead
    msgID := mergedMsgID
    version := updated.version
    fileSize := updated.fileSize.or existing.fileSize
    mimeType := updated.mimeType.or existing.mimeType
    fileHash := updated.fileHash.or existing.fileHash
    altMsgIds := sortedIds ((existing.altMsgIds ++ updated.altMsgIds ++ existing.msgID.toList ++
      updated.msgID.toList).filter fun id => some id ≠ mergedMsgID)
    cloudCustomData := updated.cloudCustomData.or existing.cloudCustomData
    needReadReceipt := updated.needReadReceipt || existing.needReadReceipt }

/-- The later of two copies read from disk is the one kept. -/
def keepsLater (existing msg : ChatMessage) : Bool :=
  if existing.msgID = none && msg.msgID = none then true
  else if msg.isTempPath && !existing.isTempPath then false
  else if !msg.isTempPath && existing.isTempPath then true
  else msg.timestamp > existing.timestamp

def preferLoadedCopy (existing msg : ChatMessage) : ChatMessage :=
  let winner := if keepsLater existing msg then msg else existing
  let loser := if keepsLater existing msg then existing else msg
  let aliases := sortedIds ((existing.ids ++ msg.ids).filter fun id => some id ≠ winner.msgID)
  let sameAliases := aliases.length = winner.altMsgIds.length && aliases.all (· ∈ winner.altMsgIds)
  let isReceived := existing.isReceived || msg.isReceived
  let isRead := existing.isRead || msg.isRead
  let needReadReceipt := existing.needReadReceipt || msg.needReadReceipt
  let isFailed := mergedFailure existing msg isReceived isRead none
  let isCancelled := existing.isCancelled || msg.isCancelled
  let contentKind := mergedKind existing msg winner.contentKind
  if sameAliases && isFailed = winner.isFailed && isCancelled = winner.isCancelled &&
      isReceived = winner.isReceived && isRead = winner.isRead &&
      needReadReceipt = winner.needReadReceipt && contentKind = winner.contentKind then winner
  else
    { winner with
      altMsgIds := aliases
      isFailed
      isCancelled
      isReceived
      isRead
      needReadReceipt
      contentKind
      cloudCustomData := winner.cloudCustomData.or loser.cloudCustomData }

/-! ## Rows read from disk -/

/-- The pass that collapses rows: the slots in first-seen order, where an emptied slot went, and
    the slot that answers to a primary identity or to an identity within one direction. -/
structure Slots where
  slots : List (Option ChatMessage) := []
  redirect : ℕ → Option ℕ := fun _ => none
  byPrimary : String → Option ℕ := fun _ => none
  byIdentity : Bool × String → Option ℕ := fun _ => none

namespace Slots

/-- A redirection points to an earlier slot, so there are no more hops than the index says. -/
def resolve (redirect : ℕ → Option ℕ) : ℕ → ℕ → ℕ
  | 0, i => i
  | hops + 1, i =>
    match redirect i with
    | none => i
    | some j => resolve redirect hops j

def register (s : Slots) (m : ChatMessage) (index : ℕ) : Slots :=
  { s with
    byPrimary := Function.update s.byPrimary m.primary (some index)
    byIdentity := (identitiesOf m).foldl
      (fun byIdentity id => Function.update byIdentity (m.isSelf, id) (some index)) s.byIdentity }

def hits (s : Slots) (msg : ChatMessage) : List ℕ :=
  ((s.byPrimary msg.primary).toList ++
    (identitiesOf msg).filterMap fun id => s.byIdentity (msg.isSelf, id)).map
      fun i => resolve s.redirect i i

def at? (s : Slots) (i : ℕ) : Option ChatMessage := s.slots[i]?.join

def visit (s : Slots) (msg : ChatMessage) : Slots :=
  match (s.hits msg).dedup.insertionSort (· ≤ ·) with
  | [] => register { s with slots := s.slots ++ [some msg] } msg s.slots.length
  | target :: rest =>
    let consumed := (target :: rest).filterMap s.at? ++ [msg]
    let merged := (consumed.tail.foldl preferLoadedCopy (consumed.headD msg))
    let s : Slots :=
      { s with
        slots := (rest.foldl (fun slots i => slots.set i none) s.slots).set target (some merged)
        redirect := fun i => if i ∈ rest then some target else s.redirect i }
    (consumed ++ [merged]).foldl (fun s row => s.register row target) s

end Slots

def dedupeByIdentity (rows : List ChatMessage) : List ChatMessage :=
  (rows.foldl Slots.visit {}).slots.reduceOption

/-! ## An appended row -/

def maxMessagesInMemory : ℕ := 1000

def dedupWindow : ℤ := 2000000

def matchingRow (list : List ChatMessage) (message : ChatMessage) : Option ℕ :=
  list.findIdx? fun msg => msg.isSelf = message.isSelf && message.ids.any (idMatches msg)

/-- The content fallback, for incoming rows. -/
def contentMatch (list : List ChatMessage) (message : ChatMessage) : Option ℕ :=
  if message.text.isEmpty || message.isSelf then none
  else list.findIdx? fun msg =>
    chatMessagesShareGroupIdentity msg message = none && msg.text = message.text &&
      msg.fromUserId = message.fromUserId && msg.contentKind = message.contentKind &&
      !msg.isSelf && (msg.timestamp - message.timestamp).natAbs ≤ dedupWindow

/-- The list with the message merged into its row or added at the end. -/
def appendRow (sent : Option (String → Bool)) (list : List ChatMessage) (message : ChatMessage) :
    List ChatMessage :=
  match (matchingRow list message).or (contentMatch list message) with
  | some i => list.modify i (mergeMessages sent · message)
  | none => list ++ [message]

/-- `updateMessage`, on the first row the id identifies. -/
def updateRow (sent : Option (String → Bool)) (list : List ChatMessage) (msgID : String)
    (updated : ChatMessage) : List ChatMessage :=
  match list.findIdx? (idMatches · msgID) with
  | some i => list.modify i (mergeMessages sent · updated)
  | none => list

/-- A row takes over the ids of its duplicate, and a failure the ids prove to be its own. -/
def absorb (sent : Option (String → Bool)) (current duplicate : ChatMessage) : ChatMessage :=
  let newIds := duplicate.ids.filter fun id => !idMatches current id
  let becameFailed := duplicate.msgID.any (idMatches current) && duplicate.isFailed &&
    !current.isFailed && !current.isCancelled &&
    mergedFailure current duplicate current.isReceived current.isRead sent
  if newIds.isEmpty && !becameFailed then current
  else
    { current with
      altMsgIds := sortedIds (current.altMsgIds ++ newIds)
      isFailed := current.isFailed || becameFailed }

/-- The row a caller's duplicate check matched: its very object, at a position if it is in the
    list, or the first one its id identifies. -/
def absorbingRow (list : List ChatMessage) (position : Option ℕ) (row : ChatMessage) : Option ℕ :=
  (List.range list.length).find? fun i => some i = position ||
    (list[i]?.any fun m => row.msgID.any (idMatches m))

def absorbDuplicateIds (sent : Option (String → Bool)) (list : List ChatMessage)
    (position : Option ℕ) (row duplicate : ChatMessage) : List ChatMessage :=
  match absorbingRow list position row with
  | some i => list.modify i (absorb sent · duplicate)
  | none => list

/-- The rows that leave the memory window and the ones that stay. -/
def overflow (list : List ChatMessage) : List ChatMessage × List ChatMessage :=
  list.splitAt (list.length - maxMessagesInMemory)

/-- An append and, when it added a row, the trim to the memory window. -/
def appendWindow (sent : Option (String → Bool)) (list : List ChatMessage) (message : ChatMessage) :
    List ChatMessage × List ChatMessage :=
  match (matchingRow list message).or (contentMatch list message) with
  | some _ => ([], appendRow sent list message)
  | none => overflow (appendRow sent list message)

/-! ## What a load installs -/

def notPending (m : ChatMessage) : ChatMessage := if m.isPending then { m with isPending := false } else m

/-- A row of the other side at or before the view barrier was seen. -/
def reconcile (barrier : ℤ) (m : ChatMessage) : ChatMessage :=
  if barrier > 0 && !m.isSelf && !m.isRead && m.millis ≤ barrier then { m with isRead := true } else m

def represented (others : List ChatMessage) (m : ChatMessage) : Bool :=
  others.any fun o => o.primary = m.primary ||
    (o.isSelf = m.isSelf && (identitiesOf m).any (· ∈ identitiesOf o))

structure Installed where
  cache : Option (List ChatMessage)
  returned : List ChatMessage
  dirty : Bool
  schedule : Bool
  deriving DecidableEq

def survivors (deleted : String → Bool) (messages : List ChatMessage) : List ChatMessage :=
  (dedupeByIdentity (messages.map notPending)).filter fun m => !(identitiesOf m).any deleted

def loadedRows (deleted : String → Bool) (barrier : ℤ) (messages : List ChatMessage) :
    List ChatMessage :=
  (sortChatMessagesChronologically (survivors deleted messages)).map (reconcile barrier)

/-- Live rows win; the file contributes the rows the cache lacks. -/
def installLoadedHistory (live : Option (List ChatMessage)) (messages : List ChatMessage)
    (deleted : String → Bool) (barrier : ℤ) (legacyLayout : Bool) : Installed :=
  let rows := loadedRows deleted barrier messages
  let tombstoned := (dedupeByIdentity (messages.map notPending)).length ≠ rows.length
  let dirty := rows.length ≠ messages.length || legacyLayout || messages.any ChatMessage.isPending
  if live.getD [] = [] then
    if rows = [] then { cache := live, returned := [], dirty, schedule := tombstoned && live.isSome }
    else { cache := some rows, returned := rows, dirty, schedule := tombstoned }
  else
    let live := live.getD []
    let fromFileOnly := rows.filter fun m => !represented live m
    let liveOnly := live.any fun m => !represented rows m
    let merged := if fromFileOnly = [] then live
      else sortChatMessagesChronologically (fromFileOnly ++ live)
    { cache := some merged, returned := merged, dirty, schedule := fromFileOnly ≠ [] || liveOnly }

end Tim2Tox.ChatHistory
