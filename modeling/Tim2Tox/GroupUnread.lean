import Tim2Tox.HistoryRows

set_option autoImplicit false

/-!
# Group messages that arrive twice

A group whose inbound messages come once through `ingestInboundGroupText`, with the text the native
layer polled, and once through the hook that saves what the advanced listener receives. The hook is
installed, so an ingested message reaches the message stream only when it is forced onto it. The
rows are those of the cached list; receipts and the mark of a mention touch neither rows nor count
and are left out.
-/
namespace Tim2Tox.GroupUnread
open ChatHistory ChatMessage LabelledRuns

/-- What stays the same while copies come in. -/
structure Setup where
  gid : String
  selfId : String
  groupUnreadHandledExternally : Bool
  /-- The group was quit. -/
  quit : Bool := false
  /-- The conversation is the one on the screen. -/
  active : Bool := false
  sentThisSession : Option (String → Bool) := none

/-- The cached list and the rows that left it, the preview, the count and the rows on their way to
    the listener of the message stream. -/
structure Group where
  list : List ChatMessage := []
  archived : List ChatMessage := []
  lastByPeer : Option ChatMessage := none
  unread : ℕ := 0
  msgIDSequence : ℕ := 0
  stream : List ChatMessage := []
  deriving DecidableEq

def Group.rows (s : Group) : List ChatMessage := s.archived ++ s.list

/-! ## Ids -/

/-- The name a member's message has in every client; the key of its sender is in hexadecimal. -/
def groupMessageAlias (groupId senderPk : String) (pseudoMsgId : ℕ) : String :=
  toxGroupMessageAliasPrefix ++ groupId ++ "|" ++ senderPk.toUpper ++ "|" ++ toString pseudoMsgId

/-- The id the service mints for a row of the group. -/
def mintedId (millis sequence : ℕ) (fromUserId gid : String) : String :=
  toString millis ++ "_" ++ toString sequence ++ "_" ++ fromUserId ++ "_" ++ gid

/-! ## The polled copy -/

/-- The arguments of `ingestInboundGroupText`. -/
structure Polled where
  fromUserId : String
  text : String
  contentKind : ContentKind := .normal
  forceEmit : Bool := false
  pseudoMsgId : Option ℕ := none

def isControlSignalText (text : String) : Bool := "__revoke__:".toList.isPrefixOf text.toList

def Polled.groupAlias (c : Setup) (p : Polled) : Option String :=
  p.pseudoMsgId.map (groupMessageAlias c.gid p.fromUserId)

/-- The last place of the list, from `start` on, whose row is taken. -/
def lastPlace (list : List ChatMessage) (start : ℕ) (takes : ChatMessage → Bool) : Option ℕ :=
  (List.range list.length).reverse.find? fun i => decide (start ≤ i) && list[i]?.any takes

/-- A row with the content of the copy, no older than the window; one with another alias is
    another message. -/
def sameContent (p : Polled) (groupAlias : Option String) (nowMs : ℕ) (m : ChatMessage) : Bool :=
  !(groupAlias.isSome && (toxGroupMessageAliasOf m).isSome) && m.fromUserId = p.fromUserId &&
    m.text = p.text && m.contentKind = p.contentKind && (m.millis - nowMs).natAbs < 5000

def findRecentGroupHistoryMessage (c : Setup) (list : List ChatMessage) (p : Polled) (nowMs : ℕ) :
    Option ℕ :=
  ((p.groupAlias c).bind fun id => lastPlace list 0 fun m => !m.isSelf && idMatches m id).or
    (lastPlace list (list.length - 20) (sameContent p (p.groupAlias c) nowMs))

/-- The row takes the alias of its polled copy. -/
def mergeGroupAliasIntoRow (list : List ChatMessage) (i : ℕ) (row : ChatMessage)
    (groupAlias : Option String) : List ChatMessage :=
  match groupAlias with
  | none => list
  | some id =>
    if id ∈ row.altMsgIds then list
    else
      match (List.range list.length).find? fun j =>
          decide (j = i) || list[j]?.any fun m => m.msgID = row.msgID with
      | none => list
      | some j => list.modify j fun m =>
          if id ∈ m.altMsgIds then m else { m with altMsgIds := m.altMsgIds ++ [id] }

/-- The preview shows the duplicate's row: by ids when both have one, by content otherwise. -/
def alreadyReflected (gid : String) (last : Option ChatMessage) (duplicate : ChatMessage) : Bool :=
  match last with
  | none => false
  | some last => last.groupId = some gid &&
      match last.msgID, duplicate.msgID with
      | some lastId, some duplicateId => lastId = duplicateId || duplicateId ∈ last.altMsgIds ||
          lastId ∈ duplicate.altMsgIds
      | _, _ => last.fromUserId = duplicate.fromUserId && last.text = duplicate.text &&
          last.contentKind = duplicate.contentKind

/-- The id ends as those the service mints for the sender. -/
def selfMinted (c : Setup) (p : Polled) (row : ChatMessage) : Bool :=
  row.msgID.any fun id => ("_" ++ p.fromUserId ++ "_" ++ c.gid).toList.isSuffixOf id.toList

def Group.append (c : Setup) (s : Group) (message : ChatMessage) : Group :=
  let (gone, kept) := appendWindow c.sentThisSession s.list message
  { s with list := kept, archived := s.archived ++ gone }

def Group.emit (s : Group) (message : ChatMessage) (force : Bool) : Group :=
  if force then { s with stream := s.stream ++ [message] } else s

/-- A copy whose row is there: the row is shown and counted unless the preview shows it. -/
def ingestDuplicate (c : Setup) (s : Group) (p : Polled) (i : ℕ) (duplicate : ChatMessage) :
    Group × Bool :=
  let reflected := alreadyReflected c.gid s.lastByPeer duplicate
  let s := { s with list := mergeGroupAliasIntoRow s.list i duplicate (p.groupAlias c) }
  if reflected then (s, false)
  else
    let s := { s with
      lastByPeer := some duplicate
      unread := if c.active then 0 else if !selfMinted c p duplicate then s.unread + 1 else s.unread }
    (s.emit duplicate p.forceEmit, true)

/-- The row of a copy that came first. -/
def ingestedRow (c : Setup) (s : Group) (p : Polled) (timestamp : ℕ) : ChatMessage where
  text := p.text
  fromUserId := p.fromUserId
  isSelf := p.fromUserId = c.selfId
  timestamp := timestamp * 1000
  groupId := some c.gid
  msgID := some (mintedId timestamp s.msgIDSequence p.fromUserId c.gid)
  contentKind := p.contentKind
  altMsgIds := (p.groupAlias c).toList

def ingestFresh (c : Setup) (s : Group) (p : Polled) (timestamp : ℕ) : Group :=
  let msg := ingestedRow c s p timestamp
  let s := { s with msgIDSequence := s.msgIDSequence + 1, lastByPeer := some msg }
  let emitted := p.forceEmit || isControlSignalText p.text
  let s := (s.append c msg).emit msg emitted
  if !c.groupUnreadHandledExternally || !emitted then
    { s with unread := if c.active then 0 else if !msg.isSelf then s.unread + 1 else s.unread }
  else s

/-- `ingestInboundGroupText`; the clock is read for the search and again for the row. -/
def ingestInboundGroupText (c : Setup) (s : Group) (p : Polled) (nowMs timestamp : ℕ) :
    Group × Bool :=
  if c.quit then (s, false)
  else
    match findRecentGroupHistoryMessage c s.list p nowMs with
    | some i =>
      match s.list[i]? with
      | some duplicate => ingestDuplicate c s p i duplicate
      | none => (s, false)
    | none => (ingestFresh c s p timestamp, true)

/-! ## The native copy -/

/-- The row the hook takes for the message: by id, else by content when a side has no group
    identity. -/
def savedRow (list : List ChatMessage) (chatMsg : ChatMessage) : Option ℕ :=
  (list.findIdx? fun msg => msg.isSelf = chatMsg.isSelf && chatMsg.ids.any (idMatches msg)).or
    (if chatMsg.text.isEmpty then none
    else list.findIdx? fun msg => chatMessagesShareGroupIdentity msg chatMsg = none &&
      msg.text = chatMsg.text && msg.fromUserId = chatMsg.fromUserId &&
      msg.isSelf = chatMsg.isSelf && msg.contentKind = chatMsg.contentKind &&
      (chatMsg.timestamp - msg.timestamp).natAbs ≤ dedupWindow)

/-- `BinaryReplacementHistoryHook.saveMessage` on the row the converter makes of a group message. -/
def saveMessage (c : Setup) (s : Group) (chatMsg : ChatMessage) : Group :=
  match savedRow s.list chatMsg with
  | some i =>
    match s.list[i]? with
    | some row =>
      { s with list := absorbDuplicateIds c.sentThisSession s.list (some i) row chatMsg }
    | none => s
  | none => s.append c chatMsg

/-! ## Other messages -/

/-- `sendGroupText`, or `_queueOfflineGroupText` when the group is out of reach: our own row. A
    client's id is taken when there is one. -/
def sendGroupText (c : Setup) (s : Group) (text : String) (contentKind : ContentKind)
    (clientMessageID groupAlias : Option String) (queued : Bool) (nowMs : ℕ) : Group :=
  let row : ChatMessage :=
    { text, fromUserId := c.selfId, isSelf := true, timestamp := nowMs * 1000,
      groupId := some c.gid, isPending := queued, contentKind,
      msgID := clientMessageID.or (some (mintedId nowMs s.msgIDSequence c.selfId c.gid)),
      altMsgIds := if queued then [] else groupAlias.toList }
  let s := { s with
    msgIDSequence := if clientMessageID.isSome then s.msgIDSequence else s.msgIDSequence + 1
    lastByPeer := some row
    unread := if queued then s.unread else 0 }
  (s.append c row).emit row true

/-- `refreshConversationCacheFromHistory`: the newest row, the latest of equal ones. -/
def newest (list : List ChatMessage) : Option ChatMessage :=
  (sortChatMessagesChronologically list).getLast?

/-- The platform's listener on a row of the stream: it appends it once more, refreshes the preview
    and counts an inbound row when group unread is its own. -/
def heard (c : Setup) (s : Group) (message : ChatMessage) : Group :=
  let s := s.append c message
  { s with
    lastByPeer := (newest s.list).or s.lastByPeer
    unread := if c.groupUnreadHandledExternally && !message.isSelf && !c.quit then
        if c.active then 0 else s.unread + 1
      else s.unread }

/-! ## Runs -/

/-- A logical message of a member: the row the converter makes of its native copy, and the pseudo
    id its polled copy carries. -/
structure Message where
  native : ChatMessage
  pseudoMsgId : Option ℕ := none
  deriving DecidableEq

/-- The arguments the poll loop ingests the message with; an action is forced onto the stream. -/
def Message.polled (m : Message) : Polled where
  fromUserId := m.native.fromUserId
  text := m.native.text
  contentKind := m.native.contentKind
  forceEmit := m.native.contentKind = .action
  pseudoMsgId := m.pseudoMsgId

inductive Event where
  | native (m : Message)
  | polled (m : Message) (nowMs timestamp : ℕ)
  | sent (text : String) (contentKind : ContentKind) (clientMessageID groupAlias : Option String)
    (queued : Bool) (nowMs : ℕ)
  | heard

def step (c : Setup) (s : Group) : Event → Option Group
  | .native m => some (saveMessage c s m.native)
  | .polled m nowMs timestamp => some (ingestInboundGroupText c s m.polled nowMs timestamp).1
  | .sent text contentKind clientMessageID groupAlias queued nowMs =>
    some (sendGroupText c s text contentKind clientMessageID groupAlias queued nowMs)
  | .heard =>
    match s.stream with
    | [] => none
    | row :: rest => some (heard c { s with stream := rest } row)

/-- Which copies came, and whose the rows are: one for the first copy of each message and one for
    each message sent, behind those that were there. -/
structure Tally where
  saved : List Message := []
  ingested : List Message := []
  origins : List (Option Message) := []

def Tally.after (t : Tally) : Event → Tally
  | .native m => { t with
      saved := t.saved ++ [m]
      origins := if m ∈ t.ingested then t.origins else t.origins ++ [some m] }
  | .polled m _ _ => { t with
      ingested := t.ingested ++ [m]
      origins := if m ∈ t.saved then t.origins else t.origins ++ [some m] }
  | .sent .. => { t with origins := t.origins ++ [none] }
  | .heard => t

/-- The group with the copies that came. -/
structure Followed where
  group : Group
  tally : Tally

def follow (c : Setup) (f : Followed) (e : Event) : Option Followed :=
  (step c f.group e).map fun s => ⟨s, f.tally.after e⟩

/-- The tally of a group before any copy came. -/
def Group.start (s : Group) : Followed := ⟨s, { origins := s.rows.map fun _ => none }⟩

/-! ## Copies that tell their message -/

/-- Both copies of the message carry its pseudo id or neither does, and the native one an id of the
    SDK. -/
structure Inbound (c : Setup) (m : Message) : Prop where
  direction : m.native.isSelf = false
  other : m.native.fromUserId ≠ c.selfId
  group : m.native.groupId = some c.gid
  id : ∃ rest, m.native.msgID = some ("msg_" ++ rest)
  foreign : selfMinted c m.polled m.native = false
  names : m.native.altMsgIds = (m.polled.groupAlias c).toList
  content : isControlSignalText m.native.text = false

/-- Distinct messages share no id. -/
def Told (c : Setup) (msgs : List Message) : Prop :=
  (∀ m ∈ msgs, Inbound c m) ∧
    ∀ m ∈ msgs, ∀ m' ∈ msgs, m ≠ m' → ∀ id ∈ m.native.ids, id ∉ m'.native.ids

/-- The row is like the message, and one of them has no group identity. -/
def Alike (m : Message) (r : ChatMessage) : Prop :=
  r.text = m.native.text ∧ r.fromUserId = m.native.fromUserId ∧
    r.contentKind = m.native.contentKind ∧ (m.pseudoMsgId = none ∨ toxGroupMessageAliasOf r = none)

namespace Followed

/-- The message whose row stands at a place of the list. -/
def origin (f : Followed) (i : ℕ) : Option Message :=
  f.tally.origins[f.group.archived.length + i]?.join

/-- No row of another message is like the message within two seconds of the instant. -/
def apart (f : Followed) (m : Message) (instant : ℤ) : Prop :=
  ∀ i r, f.group.list[i]? = some r → f.origin i ≠ some m → Alike m r →
    dedupWindow < (r.timestamp - instant).natAbs

/-- The row of the message is still in the list and meets `near`. -/
def inReach (f : Followed) (m : Message) (near : ℕ → ChatMessage → Prop) : Prop :=
  ∃ i r, f.group.list[i]? = some r ∧ f.origin i = some m ∧ (m.pseudoMsgId = none → near i r)

/-- A native copy finds the row of its message and no other one. -/
def nativeTells (f : Followed) (m : Message) : Prop :=
  m ∉ f.tally.saved ∧
    ((m ∈ f.tally.ingested → m.pseudoMsgId = none) → f.apart m m.native.timestamp) ∧
    (m ∈ f.tally.ingested → f.inReach m fun _ r =>
      m.native.text ≠ "" ∧ (m.native.timestamp - r.timestamp).natAbs ≤ dedupWindow)

/-- A polled copy finds the row of its message and no other one, and it is counted once. -/
def polledTells (c : Setup) (start : ℕ) (f : Followed) (m : Message) (nowMs timestamp : ℕ) : Prop :=
  m ∉ f.tally.ingested ∧ start ≤ timestamp ∧
    ((m ∈ f.tally.saved → m.pseudoMsgId = none) → ∀ i r, f.group.list[i]? = some r →
      f.origin i ≠ some m → f.group.list.length ≤ i + 20 → Alike m r →
      5000 ≤ (r.millis - nowMs).natAbs) ∧
    (m ∉ f.tally.saved → f.apart m (timestamp * 1000)) ∧
    (m ∈ f.tally.saved → f.inReach m fun i r =>
      f.group.list.length ≤ i + 20 ∧ (r.millis - nowMs).natAbs < 5000) ∧
    (m ∈ f.tally.saved → m.native.contentKind = .action → c.groupUnreadHandledExternally = false)

/-- The id of a client is new to the group. -/
def newId (c : Setup) (msgs : List Message) (start : ℕ) (f : Followed) (id : String) : Prop :=
  (∀ r ∈ f.group.rows, id ∉ r.ids) ∧ (∀ m ∈ msgs, id ∉ m.native.ids) ∧
    ∀ millis sequence from', id = mintedId millis sequence from' c.gid →
      millis < start ∨ sequence < f.group.msgIDSequence

/-- The listener finds the row it heard of, and its preview does not show a row whose polled copy
    is still to come. -/
def hearsRow (c : Setup) (f : Followed) (row : ChatMessage) : Prop :=
  (∃ r ∈ f.group.list, r.isSelf = row.isSelf ∧ ∀ id, row.msgID = some id → id ∈ r.ids) ∧
    ∀ l, newest (f.group.append c row).list = some l → ∀ m ∈ f.tally.saved,
      m ∉ f.tally.ingested → ∀ id, m.native.msgID = some id → id ∉ l.ids

/-- The copies of the messages come once each and tell their message; what is sent is queued. -/
def tells (c : Setup) (msgs : List Message) (start : ℕ) (f : Followed) : Event → Prop
  | .native m => m ∈ msgs ∧ f.nativeTells m
  | .polled m nowMs timestamp => m ∈ msgs ∧ f.polledTells c start m nowMs timestamp
  | .sent _ _ clientMessageID _ queued nowMs => queued = true ∧ start ≤ nowMs ∧
      ∀ id, clientMessageID = some id → f.newId c msgs start id
  | .heard => ∀ row rest, f.group.stream = row :: rest → f.hearsRow c row

end Followed

/-- No row from before carries an id of the messages, nor one the service is still to mint. -/
structure Settled (c : Setup) (msgs : List Message) (start : ℕ) (s : Group) : Prop where
  named : ∀ r ∈ s.rows, r.msgID ≠ none
  foreign : ∀ r ∈ s.rows, ∀ id ∈ r.ids, ∀ m ∈ msgs, id ∉ m.native.ids
  minted : ∀ r ∈ s.rows, ∀ id ∈ r.ids, ∀ millis sequence from',
    id = mintedId millis sequence from' c.gid → millis < start ∨ sequence < s.msgIDSequence
  preview : ∀ l, s.lastByPeer = some l →
    l.msgID ≠ none ∧ ∀ id ∈ l.ids, ∀ m ∈ msgs, id ∉ m.native.ids
  heard : s.stream = []

end Tim2Tox.GroupUnread
